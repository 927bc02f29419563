import RuleBaseProxy.Common.LruCache
import RuleBaseProxy.Lib.RecencyList
import RuleBaseProxy.Lib.Transition

/-! # The LRU cache with its map and its list

`LruCache` as the source keeps it: a map from keys to list elements and a
linked list of these elements. Elements are numbered as they are made; their
contents are reached through the number, as the source reaches an entry through
its pointer. With expiry disabled the cache behaves as a recency list, and the
callback hears of every entry that the list drops.
-/

namespace RuleBaseProxy.Cache

open Recency TransitionSystem

structure ListEntry (κ : Type u) (ν : Type v) where
  key : κ
  value : ν
  expires : Int

def ListEntry.pair {κ : Type u} {ν : Type v} (e : ListEntry κ ν) : κ × (ν × Int) :=
  (e.key, e.value, e.expires)

structure LinkedLru (κ : Type u) (ν : Type v) (σ : Type w) where
  cache : κ → Option Nat
  /-- The elements of the list; the front is least recent. -/
  lru : List Nat
  /-- `le.Value`. -/
  elems : Nat → Option (ListEntry κ ν)
  /-- The number of the next element. -/
  next : Nat
  /-- What the calls of `onEvict` work on. -/
  world : σ

namespace LinkedLru

variable {κ : Type u} {ν : Type v} {σ : Type w} [DecidableEq κ]

def empty (world : σ) : LinkedLru κ ν σ := ⟨fun _ => none, [], fun _ => none, 0, world⟩

/-- `list.MoveToBack`, which leaves foreign elements alone. -/
def moveToBack (c : LinkedLru κ ν σ) (le : Nat) : LinkedLru κ ν σ :=
  if le ∈ c.lru then { c with lru := c.lru.erase le ++ [le] } else c

def pushBack (c : LinkedLru κ ν σ) (e : ListEntry κ ν) : LinkedLru κ ν σ :=
  { c with
    lru := c.lru ++ [c.next]
    elems := Function.update c.elems c.next (some e)
    next := c.next + 1 }

/-- `none` stands for an element without entry. -/
def deleteElement (onEvict : κ → ν → σ → σ) (c : LinkedLru κ ν σ) (le : Nat) :
    Option (LinkedLru κ ν σ) :=
  (c.elems le).map fun e =>
    { c with
      lru := c.lru.erase le
      cache := Function.update c.cache e.key none
      world := onEvict e.key e.value c.world }

/-- The loop of `maybeDeleteOldest`, which takes one element off the list in each round. -/
def deleteExpired (onEvict : κ → ν → σ → σ) (now : Int) :
    Nat → LinkedLru κ ν σ → Option (LinkedLru κ ν σ)
  | 0, c => some c
  | n + 1, c =>
      match c.lru with
      | [] => some c
      | le :: _ =>
          (c.elems le).bind fun e =>
            if e.expires ≤ now then
              (deleteElement onEvict c le).bind (deleteExpired onEvict now n)
            else some c

def maybeDeleteOldest (o : Options) (onEvict : κ → ν → σ → σ) (now : Int)
    (c : LinkedLru κ ν σ) : Option (LinkedLru κ ν σ) :=
  if o.staleReturn = false ∧ 0 < o.maxAge then deleteExpired onEvict now c.lru.length c else some c

def store (c : LinkedLru κ ν σ) (le : Nat) (e : ListEntry κ ν) : LinkedLru κ ν σ :=
  { c with elems := Function.update c.elems le (some e) }

def setWithExpire (o : Options) (onEvict : κ → ν → σ → σ) (c : LinkedLru κ ν σ) (key : κ)
    (value : ν) (expires now : Int) : Option (LinkedLru κ ν σ) :=
  match c.cache key with
  | some le =>
      let c := c.moveToBack le
      (c.elems le).bind fun e =>
        (c.store le { e with value := value, expires := expires }).maybeDeleteOldest o onEvict now
  | none =>
      let pushed := c.pushBack ⟨key, value, expires⟩
      let pushed := { pushed with cache := Function.update pushed.cache key (some c.next) }
      (if 0 < o.maxSize ∧ o.maxSize < pushed.lru.length then
        pushed.lru.head?.bind (pushed.deleteElement onEvict)
      else some pushed).bind (maybeDeleteOldest o onEvict now)

def setExpires (o : Options) (now : Int) : Int := if 0 < o.maxAge then now + o.maxAge else 0

def getExpires (o : Options) (now expires : Int) : Int :=
  if 0 < o.maxAge ∧ o.updateAgeOnGet then now + o.maxAge else expires

/-- The unexported `get`: one reading of the clock for the check, one after it. -/
def get (o : Options) (onEvict : κ → ν → σ → σ) (c : LinkedLru κ ν σ) (key : κ)
    (now later : Int) : Option (LinkedLru κ ν σ × Option (ListEntry κ ν)) :=
  match c.cache key with
  | none => some (c, none)
  | some le =>
      (c.elems le).bind fun e =>
        if o.staleReturn = false ∧ 0 < o.maxAge ∧ e.expires ≤ now then
          (c.deleteElement onEvict le).bind fun c =>
            (c.maybeDeleteOldest o onEvict later).map fun c => (c, none)
        else
          let e := { e with expires := getExpires o later e.expires }
          some ((c.moveToBack le).store le e, some e)

def delete (onEvict : κ → ν → σ → σ) (c : LinkedLru κ ν σ) (key : κ) :
    Option (LinkedLru κ ν σ) :=
  match c.cache key with
  | some le => c.deleteElement onEvict le
  | none => some c

end LinkedLru

/-! ## Calls and their results -/

/-- The exported methods, with the readings of the clock they make. -/
inductive Op (κ : Type u) (ν : Type v) where
  | set (key : κ) (value : ν) (now later : Int)
  | setWithExpire (key : κ) (value : ν) (expires now : Int)
  | get (key : κ) (now later : Int)
  | getWithExpire (key : κ) (now later : Int)
  | exist (key : κ)
  | delete (key : κ)

inductive Output (ν : Type v) where
  | done
  | value (v : Option ν)
  | valueExpires (v : Option (ν × Int))
  | found (b : Bool)
deriving DecidableEq

section Calls

variable {κ : Type u} {ν : Type v} {σ : Type w} [DecidableEq κ]

def LinkedLru.call (o : Options) (onEvict : κ → ν → σ → σ) (c : LinkedLru κ ν σ) :
    Op κ ν → Option (LinkedLru κ ν σ × Output ν)
  | .set key value now later =>
      (c.setWithExpire o onEvict key value (setExpires o now) later).map fun c => (c, .done)
  | .setWithExpire key value expires now =>
      (c.setWithExpire o onEvict key value expires now).map fun c => (c, .done)
  | .get key now later =>
      (c.get o onEvict key now later).map fun (c, e) => (c, .value (e.map (·.value)))
  | .getWithExpire key now later =>
      (c.get o onEvict key now later).map fun (c, e) =>
        (c, .valueExpires (e.map fun e => (e.value, e.expires)))
  | .exist key => some (c, .found (c.cache key).isSome)
  | .delete key => (c.delete onEvict key).map fun c => (c, .done)

def LinkedLru.calls (o : Options) (onEvict : κ → ν → σ → σ) :
    LinkedLru κ ν σ → List (Op κ ν) → Option (LinkedLru κ ν σ × List (Output ν))
  | c, [] => some (c, [])
  | c, op :: ops =>
      (c.call o onEvict op).bind fun (c, out) =>
        (calls o onEvict c ops).map fun (c, outs) => (c, out :: outs)

/-! ## The recency list the calls stand for -/

/-- A call on the reference: reads and writes make the key the most recent one,
`Exist` leaves the order alone. -/
def refCall (o : Options) (l : RecencyList κ (ν × Int)) :
    Op κ ν → RecencyList κ (ν × Int) × Output ν
  | .set key value now _ => (l.put o.maxSize key (value, LinkedLru.setExpires o now), .done)
  | .setWithExpire key value expires _ => (l.put o.maxSize key (value, expires), .done)
  | .get key _ later =>
      match l.find key with
      | none => (l, .value none)
      | some (v, x) => (l.touch key (v, LinkedLru.getExpires o later x), .value (some v))
  | .getWithExpire key _ later =>
      match l.find key with
      | none => (l, .valueExpires none)
      | some (v, x) =>
          let x := LinkedLru.getExpires o later x
          (l.touch key (v, x), .valueExpires (some (v, x)))
  | .exist key => (l, .found (decide (key ∈ l.keys)))
  | .delete key => (l.erase key, .done)

/-- The callback for each entry that `after` no longer has, with its last value. -/
def report (onEvict : κ → ν → σ → σ) (before after : RecencyList κ (ν × Int)) (world : σ) : σ :=
  (RecencyList.dropped before after).foldl (fun w x => onEvict x.1 x.2.1 w) world

/-- A run of the reference: the list, what the callback made of `world`, the results. -/
def refCalls (o : Options) (onEvict : κ → ν → σ → σ) :
    RecencyList κ (ν × Int) → σ → List (Op κ ν) → RecencyList κ (ν × Int) × σ × List (Output ν)
  | l, world, [] => (l, world, [])
  | l, world, op :: ops =>
      let (l', out) := refCall o l op
      let (l'', world', outs) := refCalls o onEvict l' (report onEvict l l' world) ops
      (l'', world', out :: outs)

end Calls

/-! ## Map and list agree -/

namespace LinkedLru

variable {κ : Type u} {ν : Type v} {σ : Type w}

def entries (c : LinkedLru κ ν σ) : List (κ × (ν × Int)) :=
  c.lru.filterMap fun le => (c.elems le).map ListEntry.pair

structure Linked (c : LinkedLru κ ν σ) : Prop where
  live : ∀ le ∈ c.lru, ∃ e, c.elems le = some e ∧ c.cache e.key = some le
  listed : ∀ key le, c.cache key = some le → le ∈ c.lru ∧ ∃ e, c.elems le = some e ∧ e.key = key
  nodup : c.lru.Nodup
  fresh : ∀ le ∈ c.lru, le < c.next

structure Refines (c : LinkedLru κ ν σ) (l : RecencyList κ (ν × Int)) : Prop extends Linked c where
  entries_eq : c.entries = l.entries

theorem refines_empty [DecidableEq κ] (world : σ) :
    (empty world : LinkedLru κ ν σ).Refines RecencyList.empty where
  live := nofun
  listed := nofun
  nodup := List.nodup_nil
  fresh := nofun
  entries_eq := rfl

variable {c : LinkedLru κ ν σ} {l : RecencyList κ (ν × Int)} {key : κ} {le : Nat}
  {e : ListEntry κ ν}

theorem mem_entries (hle : le ∈ c.lru) (he : c.elems le = some e) : e.pair ∈ c.entries :=
  List.mem_filterMap.mpr ⟨le, hle, by rw [he, Option.map_some]⟩

theorem Linked.isSome_iff (h : c.Linked) : (c.cache key).isSome ↔ key ∈ c.entries.map Prod.fst := by
  constructor
  · intro hsome
    obtain ⟨le, hcache⟩ := Option.isSome_iff_exists.mp hsome
    obtain ⟨hle, e, he, rfl⟩ := h.listed key le hcache
    exact List.mem_map.mpr ⟨e.pair, mem_entries hle he, rfl⟩
  · intro hmem
    obtain ⟨x, hx, rfl⟩ := List.mem_map.mp hmem
    obtain ⟨le, hle, hx⟩ := List.mem_filterMap.mp hx
    obtain ⟨e, he, hcache⟩ := h.live le hle
    rw [he, Option.map_some, Option.some.injEq] at hx
    rw [← hx, ListEntry.pair, hcache, Option.isSome_some]

theorem Refines.isSome_iff (h : c.Refines l) : (c.cache key).isSome ↔ key ∈ l.keys := by
  rw [h.toLinked.isSome_iff, h.entries_eq, RecencyList.keys]

theorem Refines.notMem_keys_of_cache_none (h : c.Refines l) (hcache : c.cache key = none) :
    key ∉ l.keys := by
  intro hmem
  have hsome := h.isSome_iff.mpr hmem
  rw [hcache] at hsome
  cases hsome

/-- Two elements of the list with the same key are one. -/
theorem Linked.eq_of_key_eq (h : c.Linked) {le' : Nat} {e' : ListEntry κ ν} (hle : le ∈ c.lru)
    (hle' : le' ∈ c.lru) (he : c.elems le = some e) (he' : c.elems le' = some e')
    (hkey : e.key = e'.key) : le = le' := by
  obtain ⟨_, he₁, hc₁⟩ := h.live le hle
  obtain ⟨_, he₂, hc₂⟩ := h.live le' hle'
  cases he.symm.trans he₁
  cases he'.symm.trans he₂
  rw [hkey, hc₂, Option.some.injEq] at hc₁
  exact hc₁.symm

variable [DecidableEq κ]

theorem Refines.find_of_cache (h : c.Refines l) (hcache : c.cache key = some le) :
    ∃ e, c.elems le = some e ∧ e.key = key ∧ le ∈ c.lru ∧
      l.find key = some (e.value, e.expires) := by
  obtain ⟨hle, e, he, rfl⟩ := h.listed key le hcache
  refine ⟨e, he, rfl, hle, RecencyList.find_eq_some_iff.mpr ?_⟩
  rw [← h.entries_eq]
  exact mem_entries hle he

/-- An element leaves the list with the entry of its key. -/
theorem Linked.filterMap_erase (h : c.Linked) (hle : le ∈ c.lru) (he : c.elems le = some e) :
    ((c.lru.erase le).filterMap fun le => (c.elems le).map ListEntry.pair) =
      c.entries.filter (·.1 ≠ e.key) := by
  rw [entries, h.nodup.erase_eq_filter, List.filter_filterMap, List.filterMap_filter]
  refine List.filterMap_congr fun le' hle' => ?_
  obtain ⟨e', he', -⟩ := h.live le' hle'
  by_cases heq : le' = le
  · subst heq
    cases he.symm.trans he'
    simp [he, ListEntry.pair, Option.filter]
  · have hne : e'.key ≠ e.key := fun hk => heq (h.eq_of_key_eq hle' hle he' he hk)
    simp [he', heq, ListEntry.pair, hne, Option.filter]

/-! ## What the parts of an operation do to the recency list -/

omit [DecidableEq κ] in
theorem moveToBack_store (hle : le ∈ c.lru) :
    (c.moveToBack le).store le e =
      { c with
        lru := c.lru.erase le ++ [le]
        elems := Function.update c.elems le (some e) } := by
  rw [moveToBack, if_pos hle, store]

/-- The element of a key goes to the back, with another content. -/
theorem Refines.touch (h : c.Refines l) {e' : ListEntry κ ν} (hle : le ∈ c.lru)
    (he : c.elems le = some e) (hkey : e'.key = e.key) :
    ((c.moveToBack le).store le e').Refines (l.touch e.key (e'.value, e'.expires)) := by
  have hmem : ∀ le', le' ∈ c.lru.erase le ↔ le' ≠ le ∧ le' ∈ c.lru := fun le' =>
    h.nodup.mem_erase_iff
  have hin : ∀ le', le' ∈ c.lru.erase le ++ [le] ↔ le' ∈ c.lru := by
    intro le'
    rw [List.mem_append, hmem, List.mem_singleton]
    by_cases heq : le' = le
    · simp [heq, hle]
    · simp [heq]
  have helem : ∀ le' e₀, c.elems le' = some e₀ →
      ∃ e₁, Function.update c.elems le (some e') le' = some e₁ ∧ e₁.key = e₀.key := by
    intro le' e₀ he₀
    by_cases heq : le' = le
    · subst heq
      cases he.symm.trans he₀
      exact ⟨e', Function.update_self .., hkey⟩
    · exact ⟨e₀, by rw [Function.update_of_ne heq, he₀], rfl⟩
  rw [moveToBack_store hle]
  refine ⟨⟨fun le' hle' => ?_, fun key' le' hcache' => ?_, ?_, fun le' hle' => ?_⟩, ?_⟩
  · obtain ⟨e₀, he₀, hc₀⟩ := h.live le' ((hin le').mp hle')
    obtain ⟨e₁, he₁, hk₁⟩ := helem le' e₀ he₀
    exact ⟨e₁, he₁, by rw [hk₁, hc₀]⟩
  · obtain ⟨hle', e₀, he₀, hk₀⟩ := h.listed key' le' hcache'
    obtain ⟨e₁, he₁, hk₁⟩ := helem le' e₀ he₀
    exact ⟨(hin le').mpr hle', e₁, he₁, hk₁.trans hk₀⟩
  · rw [List.nodup_append]
    refine ⟨h.nodup.erase le, List.nodup_singleton le, fun a ha b hb => ?_⟩
    rw [List.mem_singleton.mp hb]
    exact ((hmem a).mp ha).1
  · exact h.fresh le' ((hin le').mp hle')
  · have hsame : ∀ le' ∈ c.lru.erase le,
        (Function.update c.elems le (some e') le').map ListEntry.pair =
          (c.elems le').map ListEntry.pair := by
      intro le' hle'
      rw [Function.update_of_ne ((hmem le').mp hle').1]
    rw [entries, List.filterMap_append, List.filterMap_congr hsame, h.filterMap_erase hle he,
      h.entries_eq]
    simp [RecencyList.touch, RecencyList.erase, ListEntry.pair, hkey]

/-- `deleteElement` takes the key out of map and list and tells the callback. -/
theorem Refines.deleteElement (h : c.Refines l) (onEvict : κ → ν → σ → σ) (hle : le ∈ c.lru)
    (he : c.elems le = some e) :
    ∃ c', c.deleteElement onEvict le = some c' ∧ c'.Refines (l.erase e.key) ∧
      c'.world = onEvict e.key e.value c.world := by
  have hmem : ∀ le', le' ∈ c.lru.erase le ↔ le' ≠ le ∧ le' ∈ c.lru := fun le' =>
    h.nodup.mem_erase_iff
  refine ⟨_, by rw [LinkedLru.deleteElement, he, Option.map_some], ⟨⟨fun le' hle' => ?_,
    fun key' le' hcache' => ?_, h.nodup.erase le, fun le' hle' => ?_⟩, ?_⟩, rfl⟩
  · obtain ⟨hne, hle'⟩ := (hmem le').mp hle'
    obtain ⟨e₀, he₀, hc₀⟩ := h.live le' hle'
    have hkey : e₀.key ≠ e.key := fun hk => hne (h.eq_of_key_eq hle' hle he₀ he hk)
    exact ⟨e₀, he₀, (Function.update_of_ne hkey _ _).trans hc₀⟩
  · obtain ⟨-, hnone⟩ | ⟨hkey, hcache'⟩ := eq_or_of_update hcache'
    · cases hnone
    · obtain ⟨hle', e₀, he₀, rfl⟩ := h.listed key' le' hcache'
      refine ⟨(hmem le').mpr ⟨fun heq => hkey ?_, hle'⟩, e₀, he₀, rfl⟩
      subst heq
      cases he.symm.trans he₀
      rfl
  · exact h.fresh le' ((hmem le').mp hle').2
  · rw [entries, h.filterMap_erase hle he, h.entries_eq]
    rfl

/-- A new element at the back, entered in the map under a new key. -/
theorem Refines.pushBack (h : c.Refines l) (hcache : c.cache key = none) (value : ν)
    (expires : Int) :
    ({ c.pushBack ⟨key, value, expires⟩ with
        cache := Function.update c.cache key (some c.next) } : LinkedLru κ ν σ).Refines
      (l.touch key (value, expires)) := by
  have hold : ∀ le ∈ c.lru, Function.update c.elems c.next (some ⟨key, value, expires⟩) le =
      c.elems le := by
    intro le hle
    exact Function.update_of_ne (Nat.ne_of_lt (h.fresh le hle)) _ _
  refine ⟨⟨fun le hle => ?_, fun key' le hcache' => ?_, ?_, fun le hle => ?_⟩, ?_⟩
  · obtain hle | hle := List.mem_append.mp hle
    · obtain ⟨e, he, hc⟩ := h.live le hle
      have hkey : e.key ≠ key := fun hk => by simp [← hk, hc] at hcache
      exact ⟨e, (hold le hle).trans he, (Function.update_of_ne hkey _ _).trans hc⟩
    · rw [List.mem_singleton.mp hle]
      exact ⟨_, Function.update_self .., Function.update_self ..⟩
  · obtain ⟨hkey, hnext⟩ | ⟨-, hcache'⟩ := eq_or_of_update hcache'
    · cases hnext
      exact ⟨by simp [LinkedLru.pushBack], _, Function.update_self .., hkey.symm⟩
    · obtain ⟨hle, e, he, hk⟩ := h.listed key' le hcache'
      exact ⟨List.mem_append_left _ hle, e, (hold le hle).trans he, hk⟩
  · simp only [LinkedLru.pushBack]
    rw [List.nodup_append]
    refine ⟨h.nodup, List.nodup_singleton _, fun a ha b hb => ?_⟩
    rw [List.mem_singleton.mp hb]
    exact Nat.ne_of_lt (h.fresh a ha)
  · simp only [LinkedLru.pushBack, List.mem_append, List.mem_singleton] at hle ⊢
    obtain hle | hle := hle
    · have := h.fresh le hle
      omega
    · omega
  · have hsame : ∀ le ∈ c.lru,
        (Function.update c.elems c.next (some ⟨key, value, expires⟩) le).map ListEntry.pair =
          (c.elems le).map ListEntry.pair := by
      intro le hle
      rw [hold le hle]
    rw [RecencyList.touch_entries_of_not_mem (h.notMem_keys_of_cache_none hcache), ← h.entries_eq]
    simp only [entries, LinkedLru.pushBack]
    rw [List.filterMap_append, List.filterMap_congr hsame]
    simp [ListEntry.pair]

/-! ## The calls, with expiry disabled -/

/-- Entries do not age, or old ones are returned all the same. -/
def NoExpiry (o : Options) : Prop := o.maxAge = 0 ∨ o.staleReturn = true

variable {o : Options}

theorem NoExpiry.not_checked (ho : NoExpiry o) : ¬ (o.staleReturn = false ∧ 0 < o.maxAge) := by
  obtain h | h := ho
  · simp [h]
  · simp [h]

theorem maybeDeleteOldest_of_noExpiry (ho : NoExpiry o) (onEvict : κ → ν → σ → σ) (now : Int) :
    c.maybeDeleteOldest o onEvict now = some c :=
  if_neg ho.not_checked

omit [DecidableEq κ] in
theorem Linked.length_entries (h : c.Linked) : c.entries.length = c.lru.length := by
  refine List.filterMap_length_eq_length.mpr fun le hle => ?_
  obtain ⟨e, he, -⟩ := h.live le hle
  rw [he, Option.map_some, Option.isSome_some]

/-- Beyond the size the element in front is the least recent entry, never the new one. -/
theorem Refines.deleteFront {pushed : LinkedLru κ ν σ} {a : ν × Int} (onEvict : κ → ν → σ → σ)
    (h : pushed.Refines (l.touch key a)) (hkey : key ∉ l.keys) (hne : l.entries ≠ []) :
    ∃ c', pushed.lru.head?.bind (pushed.deleteElement onEvict) = some c' ∧
      c'.Refines (l.touch key a).tail ∧
      c'.world = report onEvict l (l.touch key a).tail pushed.world := by
  obtain ⟨x, rest, hl⟩ := List.exists_cons_of_ne_nil hne
  have htouch : (l.touch key a).entries = x :: (rest ++ [(key, a)]) := by
    rw [RecencyList.touch_entries_of_not_mem hkey, hl, List.cons_append]
  obtain ⟨le, others, hlru⟩ : ∃ le others, pushed.lru = le :: others := by
    refine List.exists_cons_of_ne_nil fun hnil => ?_
    have hnone := h.entries_eq
    rw [htouch, entries, hnil] at hnone
    cases hnone
  have hle : le ∈ pushed.lru := by simp [hlru]
  obtain ⟨e, he, -⟩ := h.live le hle
  have hx : e.pair = x := by
    have hentries := h.entries_eq
    rw [htouch, entries, hlru, List.filterMap_cons_some (by rw [he, Option.map_some])] at hentries
    exact (List.cons.inj hentries).1
  obtain ⟨c', hc', href, hworld⟩ := h.deleteElement onEvict hle he
  refine ⟨c', by rw [hlru, List.head?_cons, Option.bind_some, hc'], ?_, ?_⟩
  · rw [← RecencyList.erase_head htouch, ← hx]
    exact href
  · rw [hworld, report, RecencyList.dropped_touch_tail hl hkey, ← hx]
    rfl

def pushed (c : LinkedLru κ ν σ) (key : κ) (value : ν) (expires : Int) : LinkedLru κ ν σ :=
  { c.pushBack ⟨key, value, expires⟩ with cache := Function.update c.cache key (some c.next) }

theorem length_pushed (c : LinkedLru κ ν σ) (key : κ) (value : ν) (expires : Int) :
    (c.pushed key value expires).lru.length = c.lru.length + 1 := by
  rw [pushed, LinkedLru.pushBack, List.length_append, List.length_singleton]

/-- `SetWithExpire` on a new key: the front element goes if there are too many, then the
old ones. -/
theorem setWithExpire_of_none {onEvict : κ → ν → σ → σ} (h : c.cache key = none) (value : ν)
    (expires now : Int) :
    c.setWithExpire o onEvict key value expires now =
      (if 0 < o.maxSize ∧ o.maxSize < (c.pushed key value expires).lru.length then
        (c.pushed key value expires).lru.head?.bind
          ((c.pushed key value expires).deleteElement onEvict)
      else some (c.pushed key value expires)).bind (maybeDeleteOldest o onEvict now) := by
  rw [LinkedLru.setWithExpire, h]
  rfl

theorem setWithExpire_of_some {onEvict : κ → ν → σ → σ} (h : c.cache key = some le)
    (hle : le ∈ c.lru) (he : c.elems le = some e) (value : ν) (expires now : Int) :
    c.setWithExpire o onEvict key value expires now =
      ((c.moveToBack le).store le { e with value := value, expires := expires }).maybeDeleteOldest o
        onEvict now := by
  have helem : (c.moveToBack le).elems le = some e := by
    rw [moveToBack, if_pos hle, he]
  simp only [LinkedLru.setWithExpire, h, helem, Option.bind_some]

/-- A write that evicts nothing: the key is there, or there is room for it. -/
theorem Refines.setWithExpire_room (h : c.Refines l) (ho : NoExpiry o) (onEvict : κ → ν → σ → σ)
    (key : κ) (value : ν) (expires now : Int)
    (hroom : key ∈ l.keys ∨ o.maxSize = 0 ∨ l.entries.length < o.maxSize) :
    ∃ c', c.setWithExpire o onEvict key value expires now = some c' ∧
      c'.Refines (l.touch key (value, expires)) ∧ c'.world = c.world := by
  cases hcache : c.cache key with
  | some le =>
      obtain ⟨e, he, rfl, hle, -⟩ := h.find_of_cache hcache
      refine ⟨(c.moveToBack le).store le { e with value := value, expires := expires }, ?_,
        h.touch hle he rfl, by rw [moveToBack_store hle]⟩
      rw [setWithExpire_of_some hcache hle he, maybeDeleteOldest_of_noExpiry ho]
  | none =>
      have hkey := h.notMem_keys_of_cache_none hcache
      have hlen : l.entries.length = c.lru.length := by
        rw [← h.entries_eq, h.length_entries]
      have hfits : ¬ (0 < o.maxSize ∧ o.maxSize < (c.pushed key value expires).lru.length) := by
        have hspace := hroom.resolve_left hkey
        rw [length_pushed]
        omega
      refine ⟨_, ?_, h.pushBack hcache value expires, rfl⟩
      rw [setWithExpire_of_none hcache, if_neg hfits, Option.bind_some,
        maybeDeleteOldest_of_noExpiry ho]
      rfl

theorem Refines.setWithExpire (h : c.Refines l) (hsize : 0 < o.maxSize) (ho : NoExpiry o)
    (onEvict : κ → ν → σ → σ) (key : κ) (value : ν) (expires now : Int) :
    ∃ c', c.setWithExpire o onEvict key value expires now = some c' ∧
      c'.Refines (l.put o.maxSize key (value, expires)) ∧
      c'.world = report onEvict l (l.put o.maxSize key (value, expires)) c.world := by
  by_cases hroom : key ∈ l.keys ∨ l.entries.length < o.maxSize
  · have hput : l.put o.maxSize key (value, expires) = l.touch key (value, expires) := if_pos hroom
    have hkeep : report onEvict l (l.touch key (value, expires)) c.world = c.world := by
      rw [report, RecencyList.dropped_touch, List.foldl_nil]
    rw [hput, hkeep]
    exact h.setWithExpire_room ho onEvict key value expires now (hroom.imp_right Or.inr)
  · have hput : l.put o.maxSize key (value, expires) = (l.touch key (value, expires)).tail :=
      if_neg hroom
    rw [not_or, Nat.not_lt] at hroom
    have hcache : c.cache key = none := by
      rw [← Option.not_isSome_iff_eq_none, h.isSome_iff]
      exact hroom.1
    have hlen : l.entries.length = c.lru.length := by
      rw [← h.entries_eq, h.length_entries]
    have hfull : 0 < o.maxSize ∧ o.maxSize < (c.pushed key value expires).lru.length := by
      rw [length_pushed]
      omega
    have hne : l.entries ≠ [] := List.ne_nil_of_length_pos (by omega)
    obtain ⟨c', hc', href, hworld⟩ :=
      (h.pushBack hcache value expires).deleteFront onEvict hroom.1 hne
    refine ⟨c', ?_, hput ▸ href, hput ▸ hworld⟩
    rw [setWithExpire_of_none hcache, if_pos hfull]
    exact (congrArg (Option.bind · _) hc').trans (maybeDeleteOldest_of_noExpiry ho onEvict now)

theorem Refines.setWithExpire_insert (h : c.Refines l) (ho : NoExpiry o) (onEvict : κ → ν → σ → σ)
    (key : κ) (value : ν) (expires now : Int) :
    ∃ c', c.setWithExpire o onEvict key value expires now = some c' ∧
      c'.Refines (l.insert o.maxSize key (value, expires)) := by
  by_cases hzero : o.maxSize = 0
  · obtain ⟨c', hc', href, -⟩ :=
      h.setWithExpire_room ho onEvict key value expires now (Or.inr (Or.inl hzero))
    exact ⟨c', hc', by rwa [RecencyList.insert, if_pos hzero]⟩
  · obtain ⟨c', hc', href, -⟩ :=
      h.setWithExpire (Nat.pos_of_ne_zero hzero) ho onEvict key value expires now
    exact ⟨c', hc', by rwa [RecencyList.insert, if_neg hzero]⟩

theorem Refines.get (h : c.Refines l) (ho : NoExpiry o) (onEvict : κ → ν → σ → σ) (key : κ)
    (now later : Int) :
    (c.cache key = none ∧ l.find key = none ∧ c.get o onEvict key now later = some (c, none)) ∨
    ∃ c' v x, l.find key = some (v, x) ∧
      c.get o onEvict key now later = some (c', some ⟨key, v, getExpires o later x⟩) ∧
      c'.Refines (l.touch key (v, getExpires o later x)) ∧ c'.world = c.world := by
  cases hcache : c.cache key with
  | none =>
      refine Or.inl ⟨rfl, RecencyList.find_eq_none_iff.mpr (h.notMem_keys_of_cache_none hcache), ?_⟩
      rw [LinkedLru.get, hcache]
  | some le =>
      obtain ⟨e, he, rfl, hle, hfind⟩ := h.find_of_cache hcache
      have hfresh : ¬ (o.staleReturn = false ∧ 0 < o.maxAge ∧ e.expires ≤ now) := fun hold =>
        ho.not_checked ⟨hold.1, hold.2.1⟩
      have htouch : ((c.moveToBack le).store le
          { e with expires := getExpires o later e.expires }).Refines
            (l.touch e.key (e.value, getExpires o later e.expires)) := h.touch hle he rfl
      refine Or.inr ⟨_, e.value, e.expires, hfind, ?_, htouch, by rw [moveToBack_store hle]⟩
      simp only [LinkedLru.get, hcache, he, Option.bind_some, if_neg hfresh]

theorem Refines.delete (h : c.Refines l) (onEvict : κ → ν → σ → σ) (key : κ) :
    ∃ c', c.delete onEvict key = some c' ∧ c'.Refines (l.erase key) ∧
      c'.world = report onEvict l (l.erase key) c.world := by
  cases hcache : c.cache key with
  | none =>
      have hsame := RecencyList.erase_of_not_mem (h.notMem_keys_of_cache_none hcache)
      refine ⟨c, by rw [LinkedLru.delete, hcache], by rwa [hsame], ?_⟩
      rw [hsame, report, RecencyList.dropped_of_subset fun _ hk => hk, List.foldl_nil]
  | some le =>
      obtain ⟨e, he, rfl, hle, hfind⟩ := h.find_of_cache hcache
      obtain ⟨c', hc', href, hworld⟩ := h.deleteElement onEvict hle he
      refine ⟨c', by simp only [LinkedLru.delete, hcache, hc'], href, ?_⟩
      rw [hworld, report, RecencyList.dropped_erase hfind, List.foldl_cons, List.foldl_nil]

/-- One call: the result is that of the reference, and the callback hears of
exactly the entries that the reference drops. -/
theorem Refines.call (h : c.Refines l) (hsize : 0 < o.maxSize) (ho : NoExpiry o)
    (onEvict : κ → ν → σ → σ) (op : Op κ ν) :
    ∃ c', c.call o onEvict op = some (c', (refCall o l op).2) ∧
      c'.Refines (refCall o l op).1 ∧ c'.world = report onEvict l (refCall o l op).1 c.world := by
  have hkeep : report onEvict l l c.world = c.world := by
    rw [report, RecencyList.dropped_of_subset fun _ hk => hk, List.foldl_nil]
  have htouch : ∀ key a, report onEvict l (l.touch key a) c.world = c.world := by
    intro key a
    rw [report, RecencyList.dropped_touch, List.foldl_nil]
  cases op with
  | set key value now later =>
      obtain ⟨c', hc', href, hworld⟩ :=
        h.setWithExpire hsize ho onEvict key value (setExpires o now) later
      exact ⟨c', by rw [LinkedLru.call, hc', Option.map_some]; rfl, href, hworld⟩
  | setWithExpire key value expires now =>
      obtain ⟨c', hc', href, hworld⟩ :=
        h.setWithExpire hsize ho onEvict key value expires now
      exact ⟨c', by rw [LinkedLru.call, hc', Option.map_some]; rfl, href, hworld⟩
  | get key now later | getWithExpire key now later =>
      obtain ⟨-, hfind, hget⟩ | ⟨c', v, x, hfind, hget, href, hworld⟩ :=
        h.get ho onEvict key now later
      · refine ⟨c, ?_⟩
        simp only [LinkedLru.call, refCall, hget, hfind, Option.map_some, Option.map_none, true_and]
        exact ⟨h, hkeep.symm⟩
      · refine ⟨c', ?_⟩
        simp only [LinkedLru.call, refCall, hget, hfind, Option.map_some, true_and]
        exact ⟨href, by rw [htouch, hworld]⟩
  | exist key =>
      refine ⟨c, ?_, h, hkeep.symm⟩
      have hfound : (c.cache key).isSome = decide (key ∈ l.keys) := by
        rw [Bool.eq_iff_iff, h.isSome_iff, decide_eq_true_eq]
      rw [LinkedLru.call, hfound]
      rfl
  | delete key =>
      obtain ⟨c', hc', href, hworld⟩ := h.delete onEvict key
      exact ⟨c', by rw [LinkedLru.call, hc', Option.map_some]; rfl, href, hworld⟩

theorem Refines.calls (hsize : 0 < o.maxSize) (ho : NoExpiry o) (onEvict : κ → ν → σ → σ)
    (ops : List (Op κ ν)) {c : LinkedLru κ ν σ} {l : RecencyList κ (ν × Int)} (h : c.Refines l) :
    ∃ c', c.calls o onEvict ops = some (c', (refCalls o onEvict l c.world ops).2.2) ∧
      c'.Refines (refCalls o onEvict l c.world ops).1 ∧
      c'.world = (refCalls o onEvict l c.world ops).2.1 := by
  induction ops generalizing c l with
  | nil => exact ⟨c, rfl, h, rfl⟩
  | cons op ops ih =>
      obtain ⟨c₁, hcall, href, hworld⟩ := h.call hsize ho onEvict op
      obtain ⟨c₂, hcalls, href₂, hworld₂⟩ := ih href
      rw [hworld] at hcalls href₂ hworld₂
      refine ⟨c₂, ?_, href₂, hworld₂⟩
      simp only [LinkedLru.calls, hcall, Option.bind_some, hcalls, Option.map_some]
      rfl

/-- Every sequence of calls on a new cache gives the results of the recency list
and leaves its entries; map and list hold the same keys, each in one element;
the callback has been run for the dropped entries and for nothing else. -/
theorem lruCache_refines_recencyList (hsize : 0 < o.maxSize) (ho : NoExpiry o)
    (onEvict : κ → ν → σ → σ) (world : σ) (ops : List (Op κ ν)) :
    ∃ c : LinkedLru κ ν σ,
      (empty world).calls o onEvict ops =
        some (c, (refCalls o onEvict RecencyList.empty world ops).2.2) ∧
      c.entries = (refCalls o onEvict RecencyList.empty world ops).1.entries ∧
      c.world = (refCalls o onEvict RecencyList.empty world ops).2.1 ∧
      (c.entries.map Prod.fst).Nodup ∧
      (∀ key, (c.cache key).isSome ↔ key ∈ c.entries.map Prod.fst) ∧
      ∀ key le, c.cache key = some le →
        c.lru.count le = 1 ∧ (c.elems le).map (·.key) = some key := by
  obtain ⟨c, hcalls, href, hworld⟩ :=
    Refines.calls hsize ho onEvict ops (refines_empty (κ := κ) (ν := ν) world)
  refine ⟨c, hcalls, href.entries_eq, hworld, ?_, fun key => href.toLinked.isSome_iff, ?_⟩
  · rw [href.entries_eq]
    exact RecencyList.nodup _
  · intro key le hcache
    obtain ⟨hle, e, he, hkey⟩ := href.listed key le hcache
    exact ⟨List.count_eq_one_of_mem href.nodup hle, by rw [he, Option.map_some, hkey]⟩

/-- Two places: the read of `1` makes `2` the least recent key, which the write
of `3` then drops; the overwritten value of `1` is never reported. -/
theorem lruCache_refines_recencyList_evict :
    ∃ c : LinkedLru Nat Nat (List (Nat × Nat)),
      (empty []).calls ⟨0, 2, false, false⟩ (fun k v w => w ++ [(k, v)])
        [.set 1 10 0 0, .set 2 20 0 0, .set 1 11 0 0, .get 1 0 0, .set 3 30 0 0, .exist 2,
          .delete 1] =
        some (c, [.done, .done, .done, .value (some 11), .done, .found false, .done]) ∧
      c.world = [(2, 20), (1, 11)] := by
  have hsize : 0 < (⟨0, 2, false, false⟩ : Options).maxSize := Nat.zero_lt_two
  obtain ⟨c, hcalls, -, hworld, -⟩ := lruCache_refines_recencyList hsize (Or.inl rfl)
    (fun k v w => w ++ [(k, v)]) []
    [.set 1 10 0 0, .set 2 20 0 0, .set 1 11 0 0, .get 1 0 0, .set 3 30 0 0, .exist 2, .delete 1]
  exact ⟨c, hcalls, hworld⟩

end LinkedLru

/-! ## The cache as one list

`LruCache` keeps map and list in one. It stands for the same recency list, so
what is proved about it holds of the two structures.
-/

namespace LruCache

variable {κ : Type u} {ν : Type v}

def recency (c : LruCache κ ν) : RecencyList κ (ν × Int) where
  entries := c.lru.map fun x => (x.1, x.2.value, (x.2.expires : Int))
  nodup := by
    rw [List.map_map]
    exact c.nodup

variable [DecidableEq κ] {c : LruCache κ ν} {key : κ} {e : Entry ν} {o : Options}

omit [DecidableEq κ] in
theorem recency_entries :
    c.recency.entries = c.lru.map fun x => (x.1, x.2.value, (x.2.expires : Int)) := rfl

omit [DecidableEq κ] in
theorem mem_keys_recency : key ∈ c.recency.keys ↔ ∃ e, (key, e) ∈ c.lru := by
  simp [RecencyList.keys, recency]

theorem recency_pushBack :
    (c.pushBack key e).recency = c.recency.touch key (e.value, (e.expires : Int)) := by
  ext1
  simp [recency, pushBack, delete, RecencyList.touch, RecencyList.erase, List.filter_map,
    Function.comp_def]

omit [DecidableEq κ] in
theorem recency_deleteFront : c.deleteFront.recency = c.recency.tail := by
  ext1
  rw [RecencyList.tail_entries, recency_entries, recency_entries, deleteFront, List.map_drop]

omit [DecidableEq κ] in
theorem maybeDeleteOldest_of_noExpiry (ho : LinkedLru.NoExpiry o) (now : Nat) :
    maybeDeleteOldest o now c = c :=
  if_neg ho.not_checked

theorem recency_setWithExpire (hsize : 0 < o.maxSize) (ho : LinkedLru.NoExpiry o) (now : Nat)
    (value : ν) (expires : Nat) :
    (setWithExpire o now c key value expires).recency =
      c.recency.put o.maxSize key (value, (expires : Int)) := by
  have hkeys : (c.find key).isNone ↔ key ∉ c.recency.keys := by
    rw [mem_keys_recency, Option.isNone_iff_eq_none, Option.eq_none_iff_forall_ne_some, not_exists]
    exact forall_congr' fun e => not_congr find_eq_some_iff
  have hpush : (c.pushBack key ⟨value, expires⟩).recency =
      c.recency.touch key (value, (expires : Int)) := recency_pushBack
  rw [setWithExpire, maybeDeleteOldest_of_noExpiry ho, RecencyList.put, ← hpush]
  by_cases hkey : key ∈ c.recency.keys
  · rw [if_neg (fun hfull => hkeys.mp hfull.1 hkey), if_pos (Or.inl hkey)]
  · have hlen : (c.pushBack key ⟨value, expires⟩).lru.length = c.recency.entries.length + 1 := by
      have hentries := congrArg (fun l => l.entries.length) hpush
      simpa [RecencyList.touch_entries_of_not_mem hkey, recency_entries] using hentries
    rw [hlen]
    by_cases hfull : o.maxSize < c.recency.entries.length + 1
    · rw [if_pos ⟨hkeys.mpr hkey, hsize, hfull⟩, if_neg (not_or.mpr ⟨hkey, by omega⟩),
        recency_deleteFront]
    · rw [if_neg (fun h => hfull h.2.2), if_pos (Or.inr (by omega))]

theorem recency_find : c.recency.find key = (c.find key).map fun e => (e.value, (e.expires : Int)) := by
  refine Option.ext fun a => ?_
  rw [RecencyList.find_eq_some_iff, recency_entries, List.mem_map, Option.map_eq_some_iff]
  constructor
  · intro h
    obtain ⟨x, hx, heq⟩ := h
    cases heq
    exact ⟨x.2, find_eq_some_iff.mpr hx, rfl⟩
  · intro h
    obtain ⟨e, he, rfl⟩ := h
    exact ⟨(key, e), find_eq_some_iff.mp he, rfl⟩

theorem recency_get (ho : LinkedLru.NoExpiry o) (now : Nat) :
    (get o now c key).2.recency =
        (refCall o c.recency (.getWithExpire key now now)).1 ∧
      .valueExpires ((get o now c key).1.map fun e => (e.value, (e.expires : Int))) =
        (refCall o c.recency (.getWithExpire key now now)).2 := by
  rw [get, refCall, recency_find]
  cases hfind : c.find key with
  | none => exact ⟨rfl, rfl⟩
  | some e =>
      have hfresh : ¬ (o.staleReturn = false ∧ 0 < o.maxAge ∧ e.expires ≤ now) := fun hold =>
        ho.not_checked ⟨hold.1, hold.2.1⟩
      simp only [if_neg hfresh, Option.map_some, recency_pushBack, LinkedLru.getExpires]
      split
      · exact ⟨by simp, by simp⟩
      · exact ⟨rfl, rfl⟩

end LruCache

end RuleBaseProxy.Cache
