import Mathlib.Data.List.Nodup
import Mathlib.Data.Fintype.Card
import Mathlib.Data.Set.Finite.Basic
import Mathlib.Order.WellFounded
import Mathlib.Logic.Relation

/-! # Taking a graph apart by its sources

Nodes are taken off one by one, each when no node that is still there refers to
it. Counters of the references that are left say when that is, and a queue
holds the nodes whose counter has come to zero. What is left when the queue is
empty contains a cycle, and if nothing is left there is none.
-/

namespace Kahn

open Relation

variable {α : Type u} {next : α → List α} {nodes done : List α}

/-! ## Orders and cycles -/

def Refers (next : α → List α) (nodes : List α) (y x : α) : Prop := y ∈ nodes ∧ x ∈ next y

/-- The nodes taken off so far, the last one first: each came after all that refer to it. -/
def Peels (next : α → List α) (nodes : List α) : List α → Prop
  | [] => True
  | x :: done => x ∉ done ∧ (∀ y, Refers next nodes y x → y ∈ done) ∧ Peels next nodes done

theorem Peels.nodup (h : Peels next nodes done) : done.Nodup := by
  induction done with
  | nil => exact List.nodup_nil
  | cons x done ih => exact List.nodup_cons.mpr ⟨h.1, ih h.2.2⟩

theorem Peels.mem_of_refers (h : Peels next nodes done) {x y : α} (hx : x ∈ done)
    (hyx : Refers next nodes y x) : y ∈ done := by
  induction done with
  | nil => cases hx
  | cons z done ih =>
      obtain rfl | hx := List.mem_cons.mp hx
      · exact List.mem_cons_of_mem x (h.2.1 y hyx)
      · exact List.mem_cons_of_mem z (ih h.2.2 hx)

/-- In that order no node refers to itself or to a later one. -/
theorem Peels.pairwise (h : Peels next nodes done) :
    done.Pairwise (fun x y => ¬ Refers next nodes x y) ∧ ∀ x ∈ done, ¬ Refers next nodes x x := by
  induction done with
  | nil => exact ⟨List.Pairwise.nil, fun x hx => nomatch hx⟩
  | cons z done ih =>
      obtain ⟨hnew, hrefers, hdone⟩ := h
      obtain ⟨hpairs, hself⟩ := ih hdone
      refine ⟨List.pairwise_cons.mpr ⟨?_, hpairs⟩, ?_⟩
      · intro y hy hzy
        exact hnew (hdone.mem_of_refers hy hzy)
      · intro x hx hxx
        obtain rfl | hx := List.mem_cons.mp hx
        · exact hnew (hrefers x hxx)
        · exact hself x hx hxx

theorem Peels.acc (h : Peels next nodes done) {x : α} (hx : x ∈ done) :
    Acc (Refers next nodes) x := by
  induction done generalizing x with
  | nil => cases hx
  | cons z done ih =>
      obtain rfl | hx := List.mem_cons.mp hx
      · exact Acc.intro x fun y hy => ih h.2.2 (h.2.1 y hy)
      · exact ih h.2.2 hx

theorem not_transGen_of_acc {r : α → α → Prop} {x : α} (h : Acc r x) : ¬ TransGen r x x := by
  have hacc : Acc (TransGen r) x := h.transGen
  induction hacc with
  | intro x _ ih =>
      intro hcycle
      exact ih x hcycle (h.inv_of_transGen hcycle) hcycle

/-- A finite set of nodes each of which has a predecessor in it contains a cycle. -/
theorem exists_cycle {r : α → α → Prop} {rest : List α} (hne : rest ≠ [])
    (h : ∀ x ∈ rest, ∃ y ∈ rest, r y x) : ∃ x ∈ rest, TransGen r x x := by
  by_contra hno
  let before (y x : {x // x ∈ rest}) : Prop := TransGen r y.1 x.1
  have htrans : IsTrans _ before := ⟨fun _ _ _ hab hbc => hab.trans hbc⟩
  have hirrefl : Std.Irrefl before := ⟨fun x hx => hno ⟨x.1, x.2, hx⟩⟩
  have hfinite : Finite {x // x ∈ rest} := rest.finite_toSet
  have hwf : WellFounded before := Finite.wellFounded_of_trans_of_irrefl before
  obtain ⟨x, hx⟩ := List.exists_mem_of_ne_nil rest hne
  obtain ⟨m, -, hmin⟩ := hwf.has_min Set.univ ⟨⟨x, hx⟩, trivial⟩
  obtain ⟨y, hy, hym⟩ := h m.1 m.2
  exact hmin ⟨y, hy⟩ trivial (.single hym)

theorem exists_cycle_before {r : α → α → Prop} {rest : List α}
    (h : ∀ x ∈ rest, ∃ y ∈ rest, r y x) {x : α} (hx : x ∈ rest) :
    ∃ y, TransGen r y y ∧ ReflTransGen r y x := by
  classical
  let before := rest.filter fun y => ReflTransGen r y x
  have hmem : ∀ y, y ∈ before ↔ y ∈ rest ∧ ReflTransGen r y x := by
    intro y
    simp [before]
  have hne : before ≠ [] := List.ne_nil_of_mem ((hmem x).mpr ⟨hx, .refl⟩)
  have hpred : ∀ z ∈ before, ∃ y ∈ before, r y z := by
    intro z hz
    rcases (hmem z).mp hz with ⟨hzrest, hzx⟩
    rcases h z hzrest with ⟨y, hy, hyz⟩
    exact ⟨y, (hmem y).mpr ⟨hy, .head hyz hzx⟩, hyz⟩
  rcases exists_cycle hne hpred with ⟨y, hy, hcycle⟩
  exact ⟨y, hcycle, ((hmem y).mp hy).2⟩

theorem not_acc_of_cycle_before {r : α → α → Prop} {x y : α} (hcycle : TransGen r y y)
    (hyx : ReflTransGen r y x) : ¬ Acc r x := by
  intro hacc
  apply not_transGen_of_acc _ hcycle
  rcases reflTransGen_iff_eq_or_transGen.mp hyx with rfl | htrans
  · exact hacc
  · exact hacc.inv_of_transGen htrans

/-! ## Within a part of the graph -/

section Within

variable {r : α → α → Prop} {rest : List α}

def Within (r : α → α → Prop) (rest : List α) (x y : α) : Prop := x ∈ rest ∧ y ∈ rest ∧ r x y

theorem reflTransGen_within (hclosed : ∀ x ∈ rest, ∀ y, r x y → y ∈ rest) {x y : α} (hx : x ∈ rest)
    (h : ReflTransGen r x y) : y ∈ rest ∧ ReflTransGen (Within r rest) x y := by
  induction h with
  | refl => exact ⟨hx, .refl⟩
  | tail _ hyz ih =>
      have hz := hclosed _ ih.1 _ hyz
      exact ⟨hz, ih.2.tail ⟨ih.1, hz, hyz⟩⟩

theorem transGen_within (hclosed : ∀ x ∈ rest, ∀ y, r x y → y ∈ rest) {x y : α} (hx : x ∈ rest)
    (h : TransGen r x y) : TransGen (Within r rest) x y := by
  rcases TransGen.tail'_iff.mp h with ⟨z, hxz, hzy⟩
  rcases reflTransGen_within hclosed hx hxz with ⟨hz, hpath⟩
  exact TransGen.tail' hpath ⟨hz, hclosed z hz _ hzy, hzy⟩

/-- Going back from `x` in the reversed part leads to a cycle exactly if going on from `x`
in the whole graph does. -/
theorem cycle_before_swap_iff (hclosed : ∀ x ∈ rest, ∀ y, r x y → y ∈ rest) {s : α → α → Prop}
    (hs : ∀ x y, s y x ↔ Within r rest x y) {x : α} (hx : x ∈ rest) :
    (∃ y, TransGen s y y ∧ ReflTransGen s y x) ↔ ∃ y, TransGen r y y ∧ ReflTransGen r x y := by
  have hswap : s = Function.swap (Within r rest) := by
    funext y x
    exact propext (hs x y)
  rw [hswap]
  constructor
  · intro ⟨y, hcycle, hyx⟩
    rw [transGen_swap] at hcycle
    rw [reflTransGen_swap] at hyx
    have hpart : ∀ a b, Within r rest a b → r a b := fun _ _ h => h.2.2
    exact ⟨y, TransGen.mono hpart _ _ hcycle, ReflTransGen.mono hpart _ _ hyx⟩
  · intro ⟨y, hcycle, hxy⟩
    rcases reflTransGen_within hclosed hx hxy with ⟨hy, hpath⟩
    refine ⟨y, ?_, ?_⟩
    · rw [transGen_swap]
      exact transGen_within hclosed hy hcycle
    · rw [reflTransGen_swap]
      exact hpath

end Within

/-! ## Counting references -/

theorem count_flatMap_of_eq_off {β : Type v} [DecidableEq α] [DecidableEq β] {f g : α → List β}
    {a : α} (hnodes : nodes.Nodup) (ha : a ∈ nodes) (hoff : ∀ z, z ≠ a → g z = f z) (x : β) :
    (nodes.flatMap g).count x + (f a).count x = (nodes.flatMap f).count x + (g a).count x := by
  have hrest : (nodes.erase a).flatMap g = (nodes.erase a).flatMap f := by
    refine List.flatMap_congr fun z hz => hoff z ?_
    exact (hnodes.mem_erase_iff.mp hz).1
  have hperm := List.perm_cons_erase ha
  rw [(hperm.flatMap_right g).count_eq, (hperm.flatMap_right f).count_eq, List.flatMap_cons,
    List.flatMap_cons, List.count_append, List.count_append, hrest]
  omega

/-! ## Counters and the queue -/

section Counters

variable [DecidableEq α]

abbrev Counters (α : Type u) := α → Option Int

/-- Count down for each reference; what comes to zero goes to the end of the queue. A
reference to a node that is gone is an error. -/
def release : Counters α → List α → List α → Option (Counters α × List α)
  | c, queue, [] => some (c, queue)
  | c, queue, x :: xs =>
      match c x with
      | none => none
      | some k =>
          release (Function.update c x (some (k - 1))) (if k - 1 = 0 then queue ++ [x] else queue) xs

theorem update_map_count {c : Counters α} {z : α} {k : Int} (hz : c z = some k) (xs : List α) :
    (fun x => (Function.update c z (some (k - 1)) x).map (· - (xs.count x : Int))) =
      fun x => (c x).map (· - ((z :: xs).count x : Int)) := by
  funext x
  by_cases hxz : x = z
  · subst hxz
    rw [Function.update_self, hz, List.count_cons_self, Option.map_some, Option.map_some]
    congr 1
    omega
  · rw [Function.update_of_ne hxz, List.count_cons_of_ne (Ne.symm hxz)]

theorem enough_tail {c : Counters α} {z : α} {k : Nat} {xs : List α}
    (h : ∀ x ∈ z :: xs, ∃ k : Nat, c x = some (k : Int) ∧ (z :: xs).count x ≤ k)
    (hcount : xs.count z + 1 ≤ k) :
    ∀ x ∈ xs, ∃ j : Nat,
      Function.update c z (some ((k : Int) - 1)) x = some (j : Int) ∧ xs.count x ≤ j := by
  intro x hx
  by_cases hxz : x = z
  · subst hxz
    refine ⟨k - 1, ?_, by omega⟩
    rw [Function.update_self]
    congr 1
    omega
  · obtain ⟨j, hj, hle⟩ := h x (List.mem_cons_of_mem z hx)
    rw [List.count_cons_of_ne (Ne.symm hxz)] at hle
    exact ⟨j, by rw [Function.update_of_ne hxz, hj], hle⟩

/-- If every node has as many references left as are released, all of them are, and the
nodes that come to zero are queued once each. -/
theorem release_spec {c : Counters α} {xs : List α}
    (h : ∀ x ∈ xs, ∃ k : Nat, c x = some (k : Int) ∧ xs.count x ≤ k) (queue : List α) :
    ∃ more, release c queue xs =
        some (fun x => (c x).map (· - (xs.count x : Int)), queue ++ more) ∧
      more.Nodup ∧ ∀ x, x ∈ more ↔ x ∈ xs ∧ c x = some (xs.count x : Int) := by
  induction xs generalizing c queue with
  | nil =>
      refine ⟨[], ?_, List.nodup_nil, by simp⟩
      simp [release]
  | cons z xs ih =>
      obtain ⟨k, hk, hcount⟩ := h z List.mem_cons_self
      rw [List.count_cons_self] at hcount
      obtain ⟨more, hrelease, hnodup, hmem⟩ :=
        ih (enough_tail h hcount) (if (k : Int) - 1 = 0 then queue ++ [z] else queue)
      rw [release, hk]
      simp only [hrelease, update_map_count hk]
      have hother : ∀ x, x ≠ z → (x ∈ more ↔ x ∈ z :: xs ∧ c x = some ((z :: xs).count x : Int)) := by
        intro x hxz
        rw [hmem x, Function.update_of_ne hxz, List.count_cons_of_ne (Ne.symm hxz), List.mem_cons,
          or_iff_right hxz]
      by_cases hone : k = 1
      · subst hone
        have hz : z ∉ xs := List.count_eq_zero.mp (by omega)
        have hzmore : z ∉ more := fun hin => hz ((hmem z).mp hin).1
        refine ⟨z :: more, by simp, List.nodup_cons.mpr ⟨hzmore, hnodup⟩, ?_⟩
        intro x
        by_cases hxz : x = z
        · subst hxz
          simp [hk, List.count_eq_zero.mpr hz]
        · rw [← hother x hxz, List.mem_cons, or_iff_right hxz]
      · refine ⟨more, by rw [if_neg (by omega)], hnodup, ?_⟩
        intro x
        by_cases hxz : x = z
        · subst hxz
          rw [hmem x, Function.update_self, hk, List.count_cons_self, Option.some.injEq,
            Option.some.injEq]
          constructor
          · intro ⟨_, heq⟩
            exact ⟨List.mem_cons_self, by omega⟩
          · intro ⟨_, heq⟩
            exact ⟨List.count_pos_iff.mp (by omega), by omega⟩
        · exact hother x hxz

def live (nodes done : List α) : List α := nodes.filter (· ∉ done)

def refs (next : α → List α) (nodes done : List α) (x : α) : Nat :=
  ((live nodes done).flatMap next).count x

theorem mem_live {x : α} : x ∈ live nodes done ↔ x ∈ nodes ∧ x ∉ done := by
  simp [live]

theorem refs_pos_iff {x : α} :
    0 < refs next nodes done x ↔ ∃ y ∈ live nodes done, x ∈ next y := by
  rw [refs, List.count_pos_iff, List.mem_flatMap]

theorem live_nodup (hnodes : nodes.Nodup) : (live nodes done).Nodup := hnodes.filter _

theorem mem_live_cons {x z : α} : z ∈ live nodes (x :: done) ↔ z ∈ live nodes done ∧ z ≠ x := by
  rw [mem_live, mem_live, List.mem_cons]
  tauto

theorem live_cons {x : α} (hnodes : nodes.Nodup) :
    live nodes (x :: done) = (live nodes done).erase x := by
  rw [(live_nodup hnodes).erase_eq_filter, live, live, List.filter_filter]
  congr 1
  funext y
  simp [bne, beq_eq_decide]

theorem refs_cons {x : α} (hnodes : nodes.Nodup) (hx : x ∈ live nodes done) (z : α) :
    refs next nodes (x :: done) z + (next x).count z = refs next nodes done z := by
  have hperm := (List.perm_cons_erase hx).flatMap_right next
  rw [refs, refs, live_cons hnodes, hperm.count_eq, List.flatMap_cons, List.count_append,
    Nat.add_comm]

structure Inv (next : α → List α) (nodes : List α) (c : Counters α) (queue done : List α) : Prop where
  counters : ∀ x, c x = if x ∈ live nodes done then some (refs next nodes done x : Int) else none
  queue_nodup : queue.Nodup
  mem_queue : ∀ x, x ∈ queue ↔ x ∈ live nodes done ∧ refs next nodes done x = 0
  peels : Peels next nodes done
  done_subset : ∀ x ∈ done, x ∈ nodes

/-- At the start: every node is there, and those without a reference are in the queue. -/
theorem Inv.init {c : Counters α} {queue : List α}
    (hc : ∀ x, c x = if x ∈ nodes then some ((nodes.flatMap next).count x : Int) else none)
    (hqueue : queue.Nodup) (hmem : ∀ x, x ∈ queue ↔ c x = some 0) :
    Inv next nodes c queue [] := by
  have hlive : live nodes [] = nodes := by simp [live]
  refine ⟨?_, hqueue, ?_, trivial, fun x hx => nomatch hx⟩
  · intro x
    rw [hc x, refs, hlive]
  · intro x
    rw [hmem x, hc x, refs, hlive]
    by_cases hx : x ∈ nodes
    · simp [hx]
    · simp [hx]

theorem length_live_cons {x : α} (hnodes : nodes.Nodup) (hx : x ∈ live nodes done) :
    (live nodes (x :: done)).length < (live nodes done).length := by
  rw [live_cons hnodes, List.length_erase_of_mem hx]
  have := List.length_pos_of_mem hx
  omega

section Step

variable {c : Counters α} {x : α} {queue : List α}

theorem Inv.head_live (h : Inv next nodes c (x :: queue) done) : x ∈ live nodes done :=
  ((h.mem_queue x).mp List.mem_cons_self).1

theorem Inv.head_unreferred (h : Inv next nodes c (x :: queue) done) {y : α}
    (hy : y ∈ live nodes done) : x ∉ next y := by
  intro hxy
  have hzero := ((h.mem_queue x).mp List.mem_cons_self).2
  have hpos := refs_pos_iff.mpr ⟨y, hy, hxy⟩
  omega

/-- A node is not taken off before those that refer to it. -/
theorem Inv.next_live (hclosed : ∀ y ∈ nodes, ∀ z ∈ next y, z ∈ nodes)
    (h : Inv next nodes c queue done) (hx : x ∈ live nodes done) {z : α} (hz : z ∈ next x) :
    z ∈ live nodes done := by
  obtain ⟨hxnodes, hxdone⟩ := mem_live.mp hx
  refine mem_live.mpr ⟨hclosed x hxnodes z hz, ?_⟩
  intro hzdone
  exact hxdone (h.peels.mem_of_refers hzdone ⟨hxnodes, hz⟩)

theorem Inv.counter_of_live (h : Inv next nodes c queue done) (hx : x ∈ live nodes done) :
    c x = some (refs next nodes done x : Int) := by
  rw [h.counters x, if_pos hx]

theorem Inv.release_head (hnodes : nodes.Nodup) (hclosed : ∀ y ∈ nodes, ∀ z ∈ next y, z ∈ nodes)
    (h : Inv next nodes c (x :: queue) done) :
    ∃ more, release c queue (next x) =
        some (fun z => (c z).map (· - ((next x).count z : Int)), queue ++ more) ∧
      more.Nodup ∧ ∀ z, z ∈ more ↔ z ∈ next x ∧ refs next nodes (x :: done) z = 0 := by
  have hrefs : ∀ z, refs next nodes (x :: done) z + (next x).count z = refs next nodes done z :=
    refs_cons hnodes h.head_live
  have hcounter : ∀ z ∈ next x, c z = some (refs next nodes done z : Int) :=
    fun z hz => h.counter_of_live (h.next_live hclosed h.head_live hz)
  have henough : ∀ z ∈ next x, ∃ k : Nat, c z = some (k : Int) ∧ (next x).count z ≤ k := by
    intro z hz
    exact ⟨refs next nodes done z, hcounter z hz, by have := hrefs z; omega⟩
  obtain ⟨more, hrelease, hmore, hmem⟩ := release_spec henough queue
  refine ⟨more, hrelease, hmore, ?_⟩
  intro z
  rw [hmem z, and_congr_right_iff]
  intro hz
  have := hrefs z
  rw [hcounter z hz, Option.some.injEq]
  omega

/-- The counters after the head of the queue has been taken off. -/
theorem Inv.counters_step (hnodes : nodes.Nodup) (h : Inv next nodes c (x :: queue) done) (z : α) :
    Function.update (fun z => (c z).map (· - ((next x).count z : Int))) x none z =
      if z ∈ live nodes (x :: done) then some (refs next nodes (x :: done) z : Int) else none := by
  by_cases hzx : z = x
  · subst hzx
    rw [Function.update_self, if_neg (fun hz => (mem_live_cons.mp hz).2 rfl)]
  · rw [Function.update_of_ne hzx, h.counters z]
    by_cases hz : z ∈ live nodes done
    · rw [if_pos hz, if_pos (mem_live_cons.mpr ⟨hz, hzx⟩), Option.map_some,
        ← refs_cons hnodes h.head_live z]
      congr 1
      omega
    · rw [if_neg hz, if_neg (fun hz' => hz (mem_live_cons.mp hz').1), Option.map_none]

/-- One turn: the node at the head of the queue is there, so is every node it refers to,
and taking it off keeps the counters right. -/
theorem Inv.step (hnodes : nodes.Nodup) (hclosed : ∀ y ∈ nodes, ∀ z ∈ next y, z ∈ nodes)
    (h : Inv next nodes c (x :: queue) done) :
    ∃ c' queue', release c queue (next x) = some (c', queue') ∧
      Inv next nodes (Function.update c' x none) queue' (x :: done) := by
  have hrefs : ∀ z, refs next nodes (x :: done) z + (next x).count z = refs next nodes done z :=
    refs_cons hnodes h.head_live
  obtain ⟨more, hrelease, hmore, hmem⟩ := h.release_head hnodes hclosed
  obtain ⟨hxqueue, hqueue⟩ := List.nodup_cons.mp h.queue_nodup
  have hold : ∀ z ∈ queue, z ∈ live nodes done ∧ refs next nodes done z = 0 :=
    fun z hz => (h.mem_queue z).mp (List.mem_cons_of_mem x hz)
  refine ⟨_, _, hrelease, h.counters_step hnodes, ?_, ?_, ?_, ?_⟩
  · refine List.nodup_append.mpr ⟨hqueue, hmore, ?_⟩
    intro z hz z' hz' heq
    subst heq
    have hzero := (hold z hz).2
    have hpos := List.count_pos_iff.mpr ((hmem z).mp hz').1
    have := hrefs z
    omega
  · intro z
    have hz := hrefs z
    rw [List.mem_append, mem_live_cons]
    constructor
    · intro hin
      obtain hin | hin := hin
      · obtain ⟨hzlive, hzero⟩ := hold z hin
        exact ⟨⟨hzlive, fun heq => hxqueue (heq ▸ hin)⟩, by omega⟩
      · obtain ⟨hznext, hzero⟩ := (hmem z).mp hin
        have hzx : z ≠ x := fun heq => h.head_unreferred h.head_live (heq ▸ hznext)
        exact ⟨⟨h.next_live hclosed h.head_live hznext, hzx⟩, hzero⟩
    · intro ⟨⟨hzlive, hzx⟩, hzero⟩
      by_cases hznext : z ∈ next x
      · exact Or.inr ((hmem z).mpr ⟨hznext, hzero⟩)
      · rw [List.count_eq_zero.mpr hznext] at hz
        have hin := (h.mem_queue z).mpr ⟨hzlive, by omega⟩
        exact Or.inl ((List.mem_cons.mp hin).resolve_left hzx)
  · refine ⟨(mem_live.mp h.head_live).2, ?_, h.peels⟩
    intro y ⟨hynodes, hxy⟩
    by_contra hydone
    exact h.head_unreferred (mem_live.mpr ⟨hynodes, hydone⟩) hxy
  · intro z hz
    obtain rfl | hz := List.mem_cons.mp hz
    · exact (mem_live.mp h.head_live).1
    · exact h.done_subset z hz

end Step

/-- When the queue is empty every node that is left is referred to by one that is left. -/
theorem Inv.stuck {c : Counters α} (h : Inv next nodes c [] done) {x : α}
    (hx : x ∈ live nodes done) : ∃ y ∈ live nodes done, x ∈ next y := by
  refine refs_pos_iff.mp (Nat.pos_of_ne_zero ?_)
  intro hzero
  cases (h.mem_queue x).mpr ⟨hx, hzero⟩

theorem Inv.mem_live_iff {c : Counters α} (h : Inv next nodes c [] done) {x : α} (hx : x ∈ nodes) :
    x ∈ live nodes done ↔
      ∃ y, TransGen (Refers next nodes) y y ∧ ReflTransGen (Refers next nodes) y x := by
  constructor
  · apply exists_cycle_before
    intro z hz
    rcases h.stuck hz with ⟨y, hy, hyz⟩
    exact ⟨y, hy, (mem_live.mp hy).1, hyz⟩
  · intro ⟨y, hcycle, hyx⟩
    refine mem_live.mpr ⟨hx, ?_⟩
    intro hdone
    exact not_acc_of_cycle_before hcycle hyx (h.peels.acc hdone)

end Counters

end Kahn
