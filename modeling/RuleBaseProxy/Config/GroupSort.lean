import RuleBaseProxy.Config.GroupGraph
import Mathlib.Data.List.Perm.Subperm

/-! # The order of the proxy groups

Both queues of `proxyGroupsDagSort` take nodes off as counters come to zero, the
first one from the groups nothing refers to, the second one, on what the first
has left, from the names that refer to nothing. Neither meets a missing node,
and what the first one leaves tells whether there is a cycle.
-/

namespace RuleBaseProxy.Config.GroupSort

open Go Kahn Relation

/-! ## The queues -/

theorem GraphNode.get_set {ν δ : Type} (degree : Degree) (node : GraphNode ν δ) (k : Int) :
    (node.set degree k).get degree = k := by
  cases degree <;> rfl

section Queues

variable {ν δ : Type} [DecidableEq ν] {degree : Degree} {graph : Graph ν δ} {c : Counters ν}
  {ι : Type} {label : GraphNode ν δ → ι} {f : ν → ι}

/-- The graph has these counters; the rest of a node, as far as the loop reads it, is fixed. -/
def Tracks (degree : Degree) (label : GraphNode ν δ → ι) (f : ν → ι) (graph : Graph ν δ)
    (c : Counters ν) : Prop :=
  ∀ x, (graph.lookup x).map (fun node => (node.get degree, label node)) =
    (c x).map fun k => (k, f x)

theorem Tracks.lookup (h : Tracks degree label f graph c) {x : ν} {k : Int} (hx : c x = some k) :
    ∃ node, graph.lookup x = some node ∧ node.get degree = k ∧ label node = f x := by
  have hlookup := h x
  rw [hx, Option.map_some, Option.map_eq_some_iff] at hlookup
  obtain ⟨node, hnode, heq⟩ := hlookup
  exact ⟨node, hnode, Prod.mk.inj heq⟩

theorem Tracks.mem_iff (h : Tracks degree label f graph c) {x : ν} :
    x ∈ graph ↔ (c x).isSome := by
  have hlookup := congrArg Option.isSome (h x)
  rw [Option.isSome_map, Option.isSome_map] at hlookup
  rw [← AList.lookup_isSome, hlookup]

theorem Tracks.erase (h : Tracks degree label f graph c) (x : ν) :
    Tracks degree label f (graph.erase x) (Function.update c x none) := by
  intro y
  by_cases hyx : y = x
  · subst hyx
    rw [AList.lookup_erase, Function.update_self]
    rfl
  · rw [AList.lookup_erase_ne hyx, Function.update_of_ne hyx]
    exact h y

theorem Tracks.set (h : Tracks degree label f graph c)
    (hlabel : ∀ node k, label (GraphNode.set degree node k) = label node) {x : ν}
    {node : GraphNode ν δ} (hx : graph.lookup x = some node) (k : Int) :
    Tracks degree label f (graph.insert x (node.set degree k)) (Function.update c x (some k)) := by
  intro y
  by_cases hyx : y = x
  · subst hyx
    have hlookup := h y
    rw [hx, Option.map_some] at hlookup
    obtain ⟨k', -, heq⟩ := Option.map_eq_some_iff.mp hlookup.symm
    rw [AList.lookup_insert, Function.update_self, Option.map_some, Option.map_some,
      GraphNode.get_set, hlabel, (Prod.mk.inj heq).2]
  · rw [AList.lookup_insert_ne hyx, Function.update_of_ne hyx]
    exact h y

/-- The inner loop of either queue counts down as `release` does. -/
theorem decrement_eq (hlabel : ∀ node k, label (GraphNode.set degree node k) = label node)
    {names queue queue' : List ν} {c' : Counters ν} (h : Tracks degree label f graph c)
    (hrelease : release c queue names = some (c', queue')) :
    ∃ graph', decrement degree graph queue names = some (graph', queue') ∧
      Tracks degree label f graph' c' := by
  induction names generalizing graph c queue with
  | nil =>
      cases hrelease
      exact ⟨graph, rfl, h⟩
  | cons x names ih =>
      rw [release] at hrelease
      cases hx : c x with
      | none =>
          rw [hx] at hrelease
          cases hrelease
      | some k =>
          simp only [hx] at hrelease
          obtain ⟨node, hnode, rfl, -⟩ := h.lookup hx
          rw [decrement, hnode]
          exact ih (h.set hlabel hnode _) hrelease

/-- The loop that fills a queue finds the nodes without a reference, in any order. -/
theorem mem_zeros (h : Tracks degree label f graph c) {names : List ν}
    (hnames : names.Perm graph.keys) (x : ν) :
    x ∈ zeros degree graph names ↔ c x = some 0 := by
  rw [zeros, List.mem_filter, hnames.mem_iff, ← AList.mem_keys, h.mem_iff]
  cases hx : c x with
  | none => simp
  | some k =>
      obtain ⟨node, hnode, rfl, -⟩ := h.lookup hx
      simp [hnode]

theorem zeros_nodup {names : List ν} (hnames : names.Perm graph.keys) :
    (zeros degree graph names).Nodup :=
  (hnames.nodup_iff.mpr graph.keys_nodup).filter _

end Queues

/-! ## The sort -/

structure Placed {δ : Type} (groups written groupsConfig : List δ) : Prop where
  length : groupsConfig.length = groups.length
  written : groupsConfig.drop (groupsConfig.length - written.length) = written

theorem Placed.write {δ : Type} {groups written groupsConfig : List δ}
    (h : Placed groups written groupsConfig) (d : δ) (hlt : written.length < groupsConfig.length) :
    Placed groups (d :: written)
      (groupsConfig.set (groupsConfig.length - (written.length + 1)) d) := by
  refine ⟨by rw [List.length_set, h.length], ?_⟩
  have hsucc : groupsConfig.length - (written.length + 1) + 1 =
      groupsConfig.length - written.length := by omega
  rw [List.length_set, List.length_cons, List.drop_eq_getElem_cons (by rw [List.length_set]; omega),
    List.getElem_set_self, List.drop_set_of_lt (Nat.lt_add_one _), hsucc, h.written]

section Sorting

variable {ν δ : Type} [DecidableEq ν] {decode : δ → GroupCommonOption ν × Option Str}
  {groups : List δ}

def dataOf (decode : δ → GroupCommonOption ν × Option Str) (groups : List δ) (x : ν) : Option δ :=
  (groupOf decode groups x).map (·.1)

theorem dataOf_eq_some {x : ν} {d : δ} (h : dataOf decode groups x = some d) :
    d ∈ groups ∧ (decode d).1.name = x ∧ proxiesOf decode groups x = (decode d).1.proxies := by
  obtain ⟨group, hgroup, rfl⟩ := Option.map_eq_some_iff.mp h
  obtain ⟨hmem, hoption, hname⟩ := groupOf_eq_some hgroup
  refine ⟨hmem, by rw [← hoption, hname], ?_⟩
  rw [proxiesOf, hgroup, Option.elim_some, hoption]

theorem dataOf_name (hnames : (groups.map fun d => (decode d).1.name).Nodup) {d : δ}
    (hd : d ∈ groups) : dataOf decode groups (decode d).1.name = some d := by
  cases h : dataOf decode groups (decode d).1.name with
  | none => exact absurd rfl (groupOf_eq_none.mp (Option.map_eq_none_iff.mp h) d hd)
  | some e =>
      obtain ⟨he, hname, -⟩ := dataOf_eq_some h
      rw [List.inj_on_of_nodup_map hnames he hd hname]

theorem filterMap_dataOf_nodup {done : List ν} (h : done.Nodup) :
    (done.filterMap (dataOf decode groups)).Nodup := by
  refine h.filterMap ?_
  intro x y d hx hy
  rw [← (dataOf_eq_some hx).2.1, (dataOf_eq_some hy).2.1]

theorem length_filterMap_dataOf_le {done : List ν} (h : done.Nodup) :
    (done.filterMap (dataOf decode groups)).length ≤ groups.length := by
  refine ((filterMap_dataOf_nodup h).subperm ?_).length_le
  intro d hd
  obtain ⟨x, -, hx⟩ := List.mem_filterMap.mp hd
  exact (dataOf_eq_some hx).1

def sortLabel (node : GraphNode ν δ) : Option (δ × GroupCommonOption ν) × Int × List ν :=
  (node.group, node.outdegree, node.froms)

def SortTracks (decode : δ → GroupCommonOption ν × Option Str) (groups : List δ) (graph : Graph ν δ)
    (c : Counters ν) : Prop :=
  Tracks .indegree sortLabel (fun x => (groupOf decode groups x, 0, [])) graph c

/-- The first queue between two turns: the groups taken off it so far stand at the end of
the slice. -/
structure SortInv (decode : δ → GroupCommonOption ν × Option Str) (groups : List δ) (nodes : List ν)
    (graph : Graph ν δ) (c : Counters ν) (queue done : List ν) (index : Nat)
    (groupsConfig : List δ) : Prop where
  inv : Inv (proxiesOf decode groups) nodes c queue done
  tracks : SortTracks decode groups graph c
  index : index = (done.filterMap (dataOf decode groups)).length
  placed : Placed groups (done.filterMap (dataOf decode groups)) groupsConfig

section Queue

variable {nodes queue done : List ν} {graph : Graph ν δ} {c : Counters ν} {index : Nat}
  {groupsConfig : List δ} {x : ν}

theorem SortInv.lookup (h : SortInv decode groups nodes graph c (x :: queue) done index groupsConfig) :
    ∃ node, graph.lookup x = some node ∧ node.group = groupOf decode groups x := by
  rcases h.tracks.lookup (h.inv.counter_of_live h.inv.head_live) with ⟨node, hnode, -, hlabel⟩
  exact ⟨node, hnode, congrArg (·.1) hlabel⟩

/-- A turn on a plain proxy, which refers to nothing and has no place in the slice. -/
theorem SortInv.step_plain
    (h : SortInv decode groups nodes graph c (x :: queue) done index groupsConfig)
    (hnodes : nodes.Nodup) (hclosed : ∀ y ∈ nodes, ∀ z ∈ proxiesOf decode groups y, z ∈ nodes)
    (hx : groupOf decode groups x = none) :
    ∃ c', (∀ turns, topoLoop (turns + 1) graph (x :: queue) index groupsConfig =
        topoLoop turns (graph.erase x) queue index groupsConfig) ∧
      SortInv decode groups nodes (graph.erase x) c' queue (x :: done) index groupsConfig := by
  rcases h.inv.step hnodes hclosed with ⟨c₁, queue₁, hrelease, hinv₁⟩
  rcases h.lookup with ⟨node, hnode, hgroup⟩
  rw [hx] at hgroup
  rw [proxiesOf_of_groupOf_eq_none hx] at hrelease
  cases hrelease
  have hskip : (x :: done).filterMap (dataOf decode groups) =
      done.filterMap (dataOf decode groups) :=
    List.filterMap_cons_none (by rw [dataOf, hx]; rfl)
  refine ⟨_, ?_, hinv₁, h.tracks.erase x, ?_, ?_⟩
  · intro turns
    rw [topoLoop, hnode]
    simp only [hgroup]
  · rw [hskip]
    exact h.index
  · rw [hskip]
    exact h.placed

/-- A turn on a group: it is written into the slice, and what it refers to is counted down. -/
theorem SortInv.step_group
    (h : SortInv decode groups nodes graph c (x :: queue) done index groupsConfig)
    (hnodes : nodes.Nodup) (hclosed : ∀ y ∈ nodes, ∀ z ∈ proxiesOf decode groups y, z ∈ nodes)
    {data : δ} {option : GroupCommonOption ν} (hx : groupOf decode groups x = some (data, option)) :
    ∃ graph' c' queue' groupsConfig',
      (∀ turns, topoLoop (turns + 1) graph (x :: queue) index groupsConfig =
        topoLoop turns graph' queue' (index + 1) groupsConfig') ∧
      SortInv decode groups nodes graph' c' queue' (x :: done) (index + 1) groupsConfig' := by
  rcases h.inv.step hnodes hclosed with ⟨c₁, queue₁, hrelease, hinv₁⟩
  rcases h.lookup with ⟨node, hnode, hgroup⟩
  rw [hx] at hgroup
  have hproxies : proxiesOf decode groups x = option.proxies := by
    rw [proxiesOf, hx]
    rfl
  rw [hproxies] at hrelease
  rcases decrement_eq (fun _ _ => rfl) h.tracks hrelease with ⟨graph₁, hdecrement, htracks₁⟩
  have hdata : (x :: done).filterMap (dataOf decode groups) =
      data :: done.filterMap (dataOf decode groups) :=
    List.filterMap_cons_some (by rw [dataOf, hx]; rfl)
  have hbound : index + 1 ≤ groupsConfig.length := by
    have hle : ((x :: done).filterMap (dataOf decode groups)).length ≤ groups.length :=
      length_filterMap_dataOf_le hinv₁.peels.nodup
    rw [hdata, List.length_cons, ← h.index] at hle
    rw [h.placed.length]
    exact hle
  refine ⟨graph₁.erase x, _, queue₁, groupsConfig.set (groupsConfig.length - (index + 1)) data, ?_,
    hinv₁, htracks₁.erase x, ?_, ?_⟩
  · intro turns
    rw [topoLoop, hnode]
    simp only [hgroup]
    rw [if_neg (by omega), hdecrement]
  · rw [hdata, List.length_cons, h.index]
  · rw [hdata, h.index]
    rw [h.index] at hbound
    exact h.placed.write data hbound

theorem SortInv.step (h : SortInv decode groups nodes graph c (x :: queue) done index groupsConfig)
    (hnodes : nodes.Nodup) (hclosed : ∀ y ∈ nodes, ∀ z ∈ proxiesOf decode groups y, z ∈ nodes) :
    ∃ graph' c' queue' index' groupsConfig',
      (∀ turns, topoLoop (turns + 1) graph (x :: queue) index groupsConfig =
        topoLoop turns graph' queue' index' groupsConfig') ∧
      SortInv decode groups nodes graph' c' queue' (x :: done) index' groupsConfig' := by
  cases hx : groupOf decode groups x with
  | none =>
      rcases h.step_plain hnodes hclosed hx with ⟨c', hloop, h'⟩
      exact ⟨_, c', _, _, _, hloop, h'⟩
  | some group =>
      rcases h.step_group hnodes hclosed hx with ⟨graph', c', queue', groupsConfig', hloop, h'⟩
      exact ⟨graph', c', queue', _, groupsConfig', hloop, h'⟩

theorem topoLoop_spec (hnodes : nodes.Nodup)
    (hclosed : ∀ y ∈ nodes, ∀ z ∈ proxiesOf decode groups y, z ∈ nodes) {turns : Nat}
    (h : SortInv decode groups nodes graph c queue done index groupsConfig)
    (hturns : (live nodes done).length ≤ turns) :
    ∃ graph' c' done' index' groupsConfig',
      topoLoop turns graph queue index groupsConfig = some (graph', groupsConfig') ∧
      SortInv decode groups nodes graph' c' [] done' index' groupsConfig' := by
  induction turns generalizing graph c queue done index groupsConfig with
  | zero =>
      cases queue with
      | nil => exact ⟨graph, c, done, index, groupsConfig, rfl, h⟩
      | cons x queue =>
          have hlive := List.length_pos_of_mem h.inv.head_live
          omega
  | succ turns ih =>
      cases queue with
      | nil => exact ⟨graph, c, done, index, groupsConfig, rfl, h⟩
      | cons x queue =>
          rcases h.step hnodes hclosed with ⟨graph₁, c₁, queue₁, index₁, groupsConfig₁, hloop, h₁⟩
          have hlen := length_live_cons hnodes h.inv.head_live
          rw [hloop]
          exact ih h₁ (by omega)

end Queue

end Sorting

/-! ## The loop -/

section Loops

variable {ν δ : Type} [DecidableEq ν] {graph start : Graph ν δ}

def outdegreeOf (graph : Graph ν δ) (x : ν) : Int := (graph.lookup x).elim 0 (·.outdegree)

def fromsOf (graph : Graph ν δ) (x : ν) : List ν := (graph.lookup x).elim [] (·.froms)

def groupAt (graph : Graph ν δ) (x : ν) : Option (Option (δ × GroupCommonOption ν)) :=
  (graph.lookup x).elim none fun node => some node.group

theorem fillRef_eq {name proxy : ν} (hname : name ∈ graph) (hproxy : proxy ∈ graph) :
    ∃ graph', fillRef name graph proxy = some graph' ∧ graph'.keys.Perm graph.keys ∧
      (∀ x, groupAt graph' x = groupAt graph x) ∧
      (∀ x, outdegreeOf graph' x = outdegreeOf graph x + if x = name then 1 else 0) ∧
      ∀ x, fromsOf graph' x = fromsOf graph x ++ if x = proxy then [name] else [] := by
  obtain ⟨node, hnode⟩ := Option.isSome_iff_exists.mp (AList.lookup_isSome.mpr hname)
  have hproxy₁ : proxy ∈ graph.insert name { node with outdegree := node.outdegree + 1 } :=
    mem_insert_of_mem hproxy
  obtain ⟨child, hchild⟩ := Option.isSome_iff_exists.mp (AList.lookup_isSome.mpr hproxy₁)
  rw [fillRef, hnode]
  simp only [hchild]
  refine ⟨_, rfl, (keys_insert_perm hproxy₁ _).trans (keys_insert_perm hname _), ?_, ?_, ?_⟩
  · intro x
    unfold groupAt
    exact (elim_lookup_insert_of_eq (by rw [hchild]; rfl) x).trans
      (elim_lookup_insert_of_eq (by rw [hnode]; rfl) x)
  · intro x
    unfold outdegreeOf
    refine (elim_lookup_insert_of_eq (by rw [hchild]; rfl) x).trans ?_
    rw [elim_lookup_insert]
    by_cases hx : x = name
    · subst hx
      rw [if_pos rfl, if_pos rfl, hnode]
      rfl
    · rw [if_neg hx, if_neg hx, Int.add_zero]
  · intro x
    have hfirst : fromsOf (graph.insert name { node with outdegree := node.outdegree + 1 }) x =
        fromsOf graph x := elim_lookup_insert_of_eq (by rw [hnode]; rfl) x
    rw [fromsOf, elim_lookup_insert, ← fromsOf, hfirst]
    by_cases hx : x = proxy
    · subst hx
      rw [if_pos rfl, if_pos rfl, ← hfirst, fromsOf, hchild]
      rfl
    · rw [if_neg hx, if_neg hx, List.append_nil]

/-- While step 2.1 runs over the graph `start`: the counters are right for the lists so far. -/
structure Filled (start graph : Graph ν δ) : Prop where
  group : ∀ x, groupAt graph x = groupAt start x
  outdegree : ∀ x, outdegreeOf graph x = ((graph.keys.flatMap (fromsOf graph)).count x : Int)
  froms : ∀ x, ∀ y ∈ fromsOf graph x, y ∈ graph

theorem isSome_groupAt (x : ν) : (groupAt graph x).isSome ↔ x ∈ graph := by
  rw [← AList.lookup_isSome, groupAt]
  cases graph.lookup x <;> rfl

theorem Filled.mem_iff (h : Filled start graph) {x : ν} : x ∈ graph ↔ x ∈ start := by
  rw [← isSome_groupAt, ← isSome_groupAt, h.group x]

theorem Filled.fill_ref {name proxy : ν} (h : Filled start graph) (hname : name ∈ start)
    (hproxy : proxy ∈ start) :
    ∃ graph', fillRef name graph proxy = some graph' ∧ Filled start graph' ∧
      ∀ x y, y ∈ fromsOf graph' x ↔ y ∈ fromsOf graph x ∨ y = name ∧ x = proxy := by
  obtain ⟨graph', heq, hkeys, hgroup, hout, hfroms⟩ :=
    fillRef_eq (h.mem_iff.mpr hname) (h.mem_iff.mpr hproxy)
  have hmem : ∀ x y, y ∈ fromsOf graph' x ↔ y ∈ fromsOf graph x ∨ y = name ∧ x = proxy := by
    intro x y
    rw [hfroms x, List.mem_append]
    by_cases hx : x = proxy
    · simp [hx]
    · simp [hx]
  refine ⟨graph', heq, ⟨fun x => (hgroup x).trans (h.group x), ?_, ?_⟩, hmem⟩
  · intro x
    have hoff : ∀ z, z ≠ proxy → fromsOf graph' z = fromsOf graph z := by
      intro z hz
      rw [hfroms z, if_neg hz, List.append_nil]
    have hcount := count_flatMap_of_eq_off graph.keys_nodup
      (AList.mem_keys.mp (h.mem_iff.mpr hproxy)) hoff x
    rw [hfroms proxy, if_pos rfl, List.count_append] at hcount
    rw [(hkeys.flatMap_right _).count_eq, hout x, h.outdegree x]
    by_cases hx : x = name
    · subst hx
      rw [List.count_singleton_self] at hcount
      rw [if_pos rfl]
      omega
    · rw [List.count_singleton, if_neg (by simpa using Ne.symm hx)] at hcount
      rw [if_neg hx]
      omega
  · intro x y hy
    rw [AList.mem_keys, hkeys.mem_iff, ← AList.mem_keys]
    obtain hy | ⟨rfl, -⟩ := (hmem x y).mp hy
    · exact h.froms x y hy
    · exact h.mem_iff.mpr hname

/-- A loop whose body does not fail: what is said of the elements behind it grows with them. -/
theorem foldlM_eq_some {σ β : Type} {P : List β → σ → Prop} {step : σ → β → Option σ} {l : List β}
    (hstep : ∀ done s, P done s → ∀ a ∈ l, ∃ s', step s a = some s' ∧ P (done ++ [a]) s')
    {done : List β} {s : σ} (hs : P done s) : ∃ s', l.foldlM step s = some s' ∧ P (done ++ l) s' := by
  induction l generalizing done s with
  | nil => exact ⟨s, rfl, by rwa [List.append_nil]⟩
  | cons a l ih =>
      obtain ⟨s₁, hs₁, hP₁⟩ := hstep done s hs a List.mem_cons_self
      rw [List.foldlM_cons, hs₁, List.append_cons]
      exact ih (fun done s hs b hb => hstep done s hs b (List.mem_cons_of_mem a hb)) hP₁

def Closed (graph : Graph ν δ) : Prop :=
  ∀ x data option, groupAt graph x = some (some (data, option)) → ∀ p ∈ option.proxies, p ∈ graph

def proxiesAt (graph : Graph ν δ) (x : ν) : List ν :=
  match groupAt graph x with
  | some (some (_, option)) => option.proxies
  | _ => []

theorem Filled.fill_node {name : ν} (hclosed : Closed start) (h : Filled start graph)
    (hname : name ∈ start) :
    ∃ graph', fillNode graph name = some graph' ∧ Filled start graph' ∧
      ∀ x y, y ∈ fromsOf graph' x ↔ y ∈ fromsOf graph x ∨ y = name ∧ x ∈ proxiesAt start name := by
  obtain ⟨node, hnode⟩ := Option.isSome_iff_exists.mp (AList.lookup_isSome.mpr (h.mem_iff.mpr hname))
  have hat : groupAt start name = some node.group := by
    rw [← h.group name, groupAt, hnode]
    rfl
  rw [fillNode, hnode, proxiesAt, hat]
  cases hgroup : node.group with
  | none => exact ⟨graph, by simp only [hgroup], h, by simp⟩
  | some group =>
      obtain ⟨data, option⟩ := group
      simp only [hgroup]
      rw [hgroup] at hat
      let P (done : List ν) (g : Graph ν δ) : Prop := Filled start g ∧
        ∀ x y, y ∈ fromsOf g x ↔ y ∈ fromsOf graph x ∨ y = name ∧ x ∈ done
      have hstep : ∀ done g, P done g → ∀ p ∈ option.proxies,
          ∃ g', fillRef name g p = some g' ∧ P (done ++ [p]) g' := by
        intro done g ⟨hg, hfroms⟩ p hp
        obtain ⟨g', hfill, hg', hmem⟩ := hg.fill_ref hname (hclosed name data option hat p hp)
        refine ⟨g', hfill, hg', fun x y => ?_⟩
        rw [hmem x y, hfroms x y, List.mem_append, List.mem_singleton]
        tauto
      have hempty : P [] graph := ⟨h, by simp⟩
      exact foldlM_eq_some hstep hempty

theorem fill_filled {names : List ν} (hclosed : Closed start)
    (hfresh : ∀ x node, start.lookup x = some node → node.outdegree = 0 ∧ node.froms = [])
    (hnames : ∀ x ∈ names, x ∈ start) :
    ∃ graph, fill start names = some graph ∧ Filled start graph ∧
      ∀ x y, y ∈ fromsOf graph x ↔ y ∈ names ∧ x ∈ proxiesAt start y := by
  have hfroms : ∀ x, fromsOf start x = [] := by
    intro x
    rw [fromsOf]
    cases hx : start.lookup x with
    | none => rfl
    | some node => exact (hfresh x node hx).2
  have hstart : Filled start start := by
    refine ⟨fun x => rfl, ?_, ?_⟩
    · intro x
      have hnil : start.keys.flatMap (fromsOf start) = [] :=
        List.flatMap_eq_nil_iff.mpr fun z _ => hfroms z
      rw [hnil, outdegreeOf]
      cases hx : start.lookup x with
      | none => rfl
      | some node => exact (hfresh x node hx).1
    · intro x y hy
      rw [hfroms x] at hy
      cases hy
  let P (done : List ν) (g : Graph ν δ) : Prop := Filled start g ∧
    ∀ x y, y ∈ fromsOf g x ↔ y ∈ done ∧ x ∈ proxiesAt start y
  have hstep : ∀ done g, P done g → ∀ name ∈ names,
      ∃ g', fillNode g name = some g' ∧ P (done ++ [name]) g' := by
    intro done g ⟨hg, hdone⟩ name hname
    obtain ⟨g', hfill, hg', hmem⟩ := hg.fill_node hclosed (hnames name hname)
    refine ⟨g', hfill, hg', fun x y => ?_⟩
    rw [hmem x y, hdone x y, List.mem_append, List.mem_singleton]
    constructor
    · intro h
      obtain ⟨hy, hx⟩ | ⟨rfl, hx⟩ := h
      · exact ⟨Or.inl hy, hx⟩
      · exact ⟨Or.inr rfl, hx⟩
    · intro ⟨hy, hx⟩
      obtain hy | rfl := hy
      · exact Or.inl ⟨hy, hx⟩
      · exact Or.inr ⟨rfl, hx⟩
  have hempty : P [] start := ⟨hstart, by simp [hfroms]⟩
  exact foldlM_eq_some hstep hempty

theorem leavesLoop_spec {nodes : List ν} {froms : ν → List ν} (hnodes : nodes.Nodup)
    (hclosed : ∀ y ∈ nodes, ∀ z ∈ froms y, z ∈ nodes) {turns : Nat} {c : Counters ν}
    {queue done : List ν} (hinv : Inv froms nodes c queue done)
    (htracks : Tracks .outdegree (·.froms) froms graph c)
    (hturns : (live nodes done).length ≤ turns) :
    ∃ graph' c' done', leavesLoop turns graph queue = some graph' ∧
      Inv froms nodes c' [] done' ∧ Tracks .outdegree (·.froms) froms graph' c' := by
  induction turns generalizing graph c queue done with
  | zero =>
      cases queue with
      | nil => exact ⟨graph, c, done, rfl, hinv, htracks⟩
      | cons x queue =>
          have := List.length_pos_of_mem hinv.head_live
          omega
  | succ turns ih =>
      cases queue with
      | nil => exact ⟨graph, c, done, rfl, hinv, htracks⟩
      | cons x queue =>
          obtain ⟨c₁, queue₁, hrelease, hinv₁⟩ := hinv.step hnodes hclosed
          obtain ⟨node, hnode, -, hfroms⟩ := htracks.lookup (hinv.counter_of_live hinv.head_live)
          rw [← hfroms] at hrelease
          obtain ⟨graph₁, hdecrement, htracks₁⟩ := decrement_eq (fun _ _ => rfl) htracks hrelease
          have hlen := length_live_cons hnodes hinv.head_live
          rw [leavesLoop, hnode]
          simp only [hdecrement]
          exact ih hinv₁ (htracks₁.erase x) (by omega)

def startCounters (degree : Degree) (graph : Graph ν δ) : Counters ν :=
  fun x => (graph.lookup x).map (·.get degree)

theorem startCounters_tracks {ι : Type} {degree : Degree} {label : GraphNode ν δ → ι} {f : ν → ι}
    (h : ∀ x node, graph.lookup x = some node → label node = f x) :
    Tracks degree label f graph (startCounters degree graph) := by
  intro x
  rw [startCounters]
  cases hx : graph.lookup x with
  | none => rfl
  | some node => rw [Option.map_some, Option.map_some, Option.map_some, h x node hx]

/-- A queue may start when the counters are those of the references. -/
theorem startCounters_inv {ι : Type} {degree : Degree} {label : GraphNode ν δ → ι} {f : ν → ι}
    {next : ν → List ν} {names : List ν} (hnames : names.Perm graph.keys)
    (htracks : Tracks degree label f graph (startCounters degree graph))
    (hcount : ∀ x, (graph.lookup x).elim 0 (·.get degree) =
      ((graph.keys.flatMap next).count x : Int)) :
    Inv next graph.keys (startCounters degree graph) (zeros degree graph names) [] := by
  refine Inv.init ?_ (zeros_nodup hnames) (mem_zeros htracks hnames)
  intro x
  have hx := hcount x
  rw [startCounters, ← hx]
  cases hlookup : graph.lookup x with
  | none => rw [if_neg (fun hin => AList.lookup_eq_none.mp hlookup (AList.mem_keys.mpr hin))]; rfl
  | some node =>
      have hin : x ∈ graph := AList.lookup_isSome.mp (by rw [hlookup]; rfl)
      rw [if_pos (AList.mem_keys.mp hin)]
      rfl

theorem length_live_le (nodes done : List ν) : (live nodes done).length ≤ nodes.length :=
  List.length_filter_le _ nodes

/-- The nodes of the graph are those that have not been taken off. -/
theorem Tracks.mem_live_iff {ι : Type} {degree : Degree} {label : GraphNode ν δ → ι} {f : ν → ι}
    {next : ν → List ν} {nodes queue done : List ν} {c : Counters ν}
    (htracks : Tracks degree label f graph c) (hinv : Inv next nodes c queue done) {x : ν} :
    x ∈ graph ↔ x ∈ live nodes done := by
  rw [htracks.mem_iff, hinv.counters x]
  by_cases hx : x ∈ live nodes done
  · simp [hx]
  · simp [hx]

/-- Step 2.2 comes to its end, with no missing node dereferenced. It leaves what leads to a
cycle. -/
theorem Filled.leavesLoop_spec {leaves : List ν} (h : Filled start graph)
    (hleaves : leaves.Perm graph.keys) :
    ∃ rest, leavesLoop graph.keys.length graph (zeros .outdegree graph leaves) = some rest ∧
      ∀ x, x ∈ rest ↔ x ∈ graph ∧ ∃ y, TransGen (Refers (fromsOf graph) graph.keys) y y ∧
        ReflTransGen (Refers (fromsOf graph) graph.keys) y x := by
  have htracks : Tracks .outdegree (·.froms) (fromsOf graph) graph (startCounters .outdegree graph) :=
    startCounters_tracks fun x node hx => by rw [fromsOf, hx]; rfl
  have hclosed : ∀ y ∈ graph.keys, ∀ z ∈ fromsOf graph y, z ∈ graph.keys := by
    intro y _ z hz
    exact AList.mem_keys.mp (h.froms y z hz)
  obtain ⟨rest, c, done, hloop, hinv, hrest⟩ := GroupSort.leavesLoop_spec graph.keys_nodup hclosed
    (startCounters_inv hleaves htracks h.outdegree) htracks (length_live_le _ _)
  refine ⟨rest, hloop, fun x => ?_⟩
  rw [hrest.mem_live_iff hinv, AList.mem_keys]
  constructor
  · intro hx
    have hkeys := (mem_live.mp hx).1
    exact ⟨hkeys, (hinv.mem_live_iff hkeys).mp hx⟩
  · intro ⟨hkeys, hcycle⟩
    exact (hinv.mem_live_iff hkeys).mpr hcycle

end Loops

/-! ## The whole function -/

/-- In an order without references to later groups or to itself a group stands after
those in its list. -/
theorem lt_of_pairwise {ν δ : Type} {decode : δ → GroupCommonOption ν × Option Str}
    {groupsConfig : List δ}
    (hpairs : groupsConfig.Pairwise fun d e => (decode e).1.name ∉ (decode d).1.proxies)
    (hself : ∀ d ∈ groupsConfig, (decode d).1.name ∉ (decode d).1.proxies) {i j : Nat} {d e : δ}
    (hi : groupsConfig[i]? = some d) (hj : groupsConfig[j]? = some e)
    (hde : (decode e).1.name ∈ (decode d).1.proxies) : j < i := by
  obtain ⟨hilt, hi⟩ := List.getElem?_eq_some_iff.mp hi
  obtain ⟨hjlt, hj⟩ := List.getElem?_eq_some_iff.mp hj
  subst hi hj
  by_contra hle
  obtain heq | hlt := Nat.eq_or_lt_of_le (Nat.le_of_not_lt hle)
  · subst heq
    exact hself _ (List.getElem_mem hilt) hde
  · exact List.pairwise_iff_getElem.mp hpairs i j hilt hjlt hlt hde

section Correctness

variable {ν δ : Type} [DecidableEq ν] {decode : δ → GroupCommonOption ν × Option Str}
  {groups : List δ}

def RefersTo (decode : δ → GroupCommonOption ν × Option Str) (groups : List δ) (d e : δ) : Prop :=
  d ∈ groups ∧ e ∈ groups ∧ (decode e).1.name ∈ (decode d).1.proxies

theorem dataOf_of_mem_proxiesOf {x y : ν} (h : y ∈ proxiesOf decode groups x) :
    ∃ d, dataOf decode groups x = some d := by
  rw [proxiesOf] at h
  rw [dataOf]
  cases hx : groupOf decode groups x with
  | none =>
      rw [hx] at h
      cases h
  | some group => exact ⟨group.1, rfl⟩

def NameRefers (decode : δ → GroupCommonOption ν × Option Str) (groups : List δ) (x y : ν) : Prop :=
  y ∈ proxiesOf decode groups x

/-- Only groups refer to anything, so it does not matter what else is a node. -/
theorem refers_eq_nameRefers {nodes : List ν} (hnodes : ∀ d ∈ groups, (decode d).1.name ∈ nodes) :
    Refers (proxiesOf decode groups) nodes = NameRefers decode groups := by
  funext x y
  refine propext ⟨fun h => h.2, fun h => ⟨?_, h⟩⟩
  obtain ⟨d, hd⟩ := dataOf_of_mem_proxiesOf h
  obtain ⟨hmem, hname, -⟩ := dataOf_eq_some hd
  rw [← hname]
  exact hnodes d hmem

/-- A way from name to name that ends at a group is a way from group to group. -/
theorem transGen_refersTo {x y : ν} (h : TransGen (NameRefers decode groups) x y) {e : δ}
    (he : e ∈ groups) (hy : (decode e).1.name = y) :
    ∃ d ∈ groups, (decode d).1.name = x ∧ TransGen (RefersTo decode groups) d e := by
  induction h generalizing e with
  | single hxy =>
      obtain ⟨d, hd⟩ := dataOf_of_mem_proxiesOf hxy
      obtain ⟨hmem, hname, hproxies⟩ := dataOf_eq_some hd
      refine ⟨d, hmem, hname, .single ⟨hmem, he, ?_⟩⟩
      rw [hy, ← hproxies]
      exact hxy
  | tail _ hbc ih =>
      obtain ⟨b, hb⟩ := dataOf_of_mem_proxiesOf hbc
      obtain ⟨hmem, hname, hproxies⟩ := dataOf_eq_some hb
      obtain ⟨d, hd, hx, hpath⟩ := ih hmem hname
      refine ⟨d, hd, hx, hpath.tail ⟨hmem, he, ?_⟩⟩
      rw [hy, ← hproxies]
      exact hbc

theorem proxiesOf_name (hnames : (groups.map fun d => (decode d).1.name).Nodup) {d : δ}
    (hd : d ∈ groups) : proxiesOf decode groups (decode d).1.name = (decode d).1.proxies :=
  (dataOf_eq_some (dataOf_name hnames hd)).2.2

/-- Ways from group to group are ways from name to name. -/
theorem transGen_nameRefers_iff (hnames : (groups.map fun d => (decode d).1.name).Nodup) {d e : δ}
    (hd : d ∈ groups) (he : e ∈ groups) :
    TransGen (NameRefers decode groups) (decode d).1.name (decode e).1.name ↔
      TransGen (RefersTo decode groups) d e := by
  constructor
  · intro h
    obtain ⟨d', hd', hname, hpath⟩ := transGen_refersTo h he rfl
    rwa [List.inj_on_of_nodup_map hnames hd' hd hname] at hpath
  · refine TransGen.lift (fun e => (decode e).1.name) ?_ d e
    intro a b ⟨ha, hb, hab⟩
    show _ ∈ proxiesOf decode groups _
    rw [proxiesOf_name hnames ha]
    exact hab

theorem cycle_iff (hnames : (groups.map fun d => (decode d).1.name).Nodup) {x : ν} :
    TransGen (NameRefers decode groups) x x ↔
      ∃ d ∈ groups, (decode d).1.name = x ∧ TransGen (RefersTo decode groups) d d := by
  constructor
  · intro h
    obtain ⟨y, hxy, -⟩ := TransGen.head'_iff.mp h
    obtain ⟨d, hd⟩ := dataOf_of_mem_proxiesOf hxy
    obtain ⟨hmem, rfl, -⟩ := dataOf_eq_some hd
    exact ⟨d, hmem, rfl, (transGen_nameRefers_iff hnames hmem hmem).mp h⟩
  · intro ⟨d, hd, hname, hcycle⟩
    subst hname
    exact (transGen_nameRefers_iff hnames hd hd).mpr hcycle

theorem exists_cycle_iff (hnames : (groups.map fun d => (decode d).1.name).Nodup) :
    (∃ x, TransGen (NameRefers decode groups) x x) ↔
      ∃ d, TransGen (RefersTo decode groups) d d := by
  constructor
  · intro ⟨x, hx⟩
    obtain ⟨d, -, -, hcycle⟩ := (cycle_iff hnames).mp hx
    exact ⟨d, hcycle⟩
  · intro ⟨d, hd⟩
    obtain ⟨e, hde, -⟩ := TransGen.head'_iff.mp hd
    exact ⟨(decode d).1.name, (cycle_iff hnames).mpr ⟨d, hde.1, rfl, hd⟩⟩

section Sorted

variable {nodes done : List ν} {graph : Graph ν δ} {c : Counters ν} {groupsConfig : List δ}

/-- What the sort leaves alone in the nodes that are left. -/
theorem label_of_inv (hinv : Inv (proxiesOf decode groups) nodes c [] done)
    (htracks : SortTracks decode groups graph c) {x : ν} {node : GraphNode ν δ}
    (hx : graph.lookup x = some node) : sortLabel node = (groupOf decode groups x, 0, []) := by
  have hlive := (htracks.mem_live_iff hinv).mp (AList.lookup_isSome.mp (by rw [hx]; rfl))
  rcases htracks.lookup (hinv.counter_of_live hlive) with ⟨node', hnode', -, hlabel⟩
  cases hx.symm.trans hnode'
  exact hlabel

theorem groupAt_of_inv (hinv : Inv (proxiesOf decode groups) nodes c [] done)
    (htracks : SortTracks decode groups graph c) {x : ν} (hx : x ∈ graph) :
    groupAt graph x = some (groupOf decode groups x) := by
  rcases Option.isSome_iff_exists.mp (AList.lookup_isSome.mpr hx) with ⟨node, hnode⟩
  have hgroup : node.group = groupOf decode groups x :=
    congrArg (·.1) (label_of_inv hinv htracks hnode)
  rw [groupAt, hnode, Option.elim_some, hgroup]

/-- What is left after the sort still has every node its groups refer to. -/
theorem closed_of_inv (hclosed : ∀ y ∈ nodes, ∀ z ∈ proxiesOf decode groups y, z ∈ nodes)
    (hinv : Inv (proxiesOf decode groups) nodes c [] done)
    (htracks : SortTracks decode groups graph c) : Closed graph := by
  intro x data option hat p hp
  have hx : x ∈ graph := (isSome_groupAt x).mp (by rw [hat]; rfl)
  have hlive := (htracks.mem_live_iff hinv).mp hx
  have hgroup : groupOf decode groups x = some (data, option) := by
    rw [groupAt_of_inv hinv htracks hx] at hat
    exact Option.some.inj hat
  refine (htracks.mem_live_iff hinv).mpr (hinv.next_live hclosed hlive ?_)
  rw [proxiesOf, hgroup]
  exact hp

theorem mem_iff_of_inv (hnodes : ∀ d ∈ groups, (decode d).1.name ∈ nodes)
    (hclosed : ∀ y ∈ nodes, ∀ z ∈ proxiesOf decode groups y, z ∈ nodes)
    (hinv : Inv (proxiesOf decode groups) nodes c [] done)
    (htracks : SortTracks decode groups graph c) (x : ν) :
    x ∈ graph ↔ ∃ y, TransGen (NameRefers decode groups) y y ∧
      ReflTransGen (NameRefers decode groups) y x := by
  rw [htracks.mem_live_iff hinv, ← refers_eq_nameRefers hnodes]
  constructor
  · intro hx
    exact (hinv.mem_live_iff (mem_live.mp hx).1).mp hx
  · intro ⟨y, hcycle, hyx⟩
    rcases TransGen.head'_iff.mp hcycle with ⟨z, hyz, -⟩
    have hx := (reflTransGen_within (fun u hu v huv => hclosed u hu v huv.2) hyz.1 hyx).1
    exact (hinv.mem_live_iff hx).mpr ⟨y, hcycle, hyx⟩

/-- With nothing left, the slice holds all the groups, each after those it refers to. -/
theorem sorted_of_inv (hnames : (groups.map fun d => (decode d).1.name).Nodup)
    (hnodes : ∀ d ∈ groups, (decode d).1.name ∈ nodes)
    (hinv : Inv (proxiesOf decode groups) nodes c [] done) (hnil : live nodes done = [])
    (hplaced : Placed groups (done.filterMap (dataOf decode groups)) groupsConfig) :
    groupsConfig.Perm groups ∧
      groupsConfig.Pairwise (fun d e => (decode e).1.name ∉ (decode d).1.proxies) ∧
      ∀ d ∈ groupsConfig, (decode d).1.name ∉ (decode d).1.proxies := by
  have hperm : (done.filterMap (dataOf decode groups)).Perm groups := by
    refine (List.perm_ext_iff_of_nodup (filterMap_dataOf_nodup hinv.peels.nodup)
      (List.Nodup.of_map _ hnames)).mpr fun d => ?_
    constructor
    · intro hd
      obtain ⟨x, -, hx⟩ := List.mem_filterMap.mp hd
      exact (dataOf_eq_some hx).1
    · intro hd
      refine List.mem_filterMap.mpr ⟨(decode d).1.name, ?_, dataOf_name hnames hd⟩
      by_contra hdone
      have hlive := mem_live.mpr ⟨hnodes d hd, hdone⟩
      rw [hnil] at hlive
      cases hlive
  have hall : groupsConfig = done.filterMap (dataOf decode groups) := by
    have hwritten := hplaced.written
    rwa [hperm.length_eq, hplaced.length, Nat.sub_self, List.drop_zero] at hwritten
  obtain ⟨hpairs, hself⟩ := hinv.peels.pairwise
  rw [hall]
  refine ⟨hperm, ?_, ?_⟩
  · refine List.Pairwise.filterMap _ ?_ hpairs
    intro x y hxy d hd e he hin
    obtain ⟨hmem, hname, hproxies⟩ := dataOf_eq_some hd
    refine hxy ⟨?_, ?_⟩
    · rw [← hname]
      exact hnodes d hmem
    · rw [hproxies, ← (dataOf_eq_some he).2.1]
      exact hin
  · intro d hd hin
    obtain ⟨x, hx, hdx⟩ := List.mem_filterMap.mp hd
    obtain ⟨hmem, hname, hproxies⟩ := dataOf_eq_some hdx
    refine hself x hx ⟨?_, ?_⟩
    · rw [← hname]
      exact hnodes d hmem
    · rw [hproxies, ← hname]
      exact hin

end Sorted

structure SortLeaves (decode : δ → GroupCommonOption ν × Option Str) (groups : List δ)
    (left : Graph ν δ) (sorted : List δ) : Prop where
  closed : Closed left
  fresh : ∀ x node, left.lookup x = some node → node.outdegree = 0 ∧ node.froms = []
  proxies : ∀ x ∈ left, proxiesAt left x = proxiesOf decode groups x
  mem_iff : ∀ x, x ∈ left ↔ ∃ y, TransGen (NameRefers decode groups) y y ∧
    ReflTransGen (NameRefers decode groups) y x
  sorted : left.keys.length = 0 → sorted.Perm groups ∧
    sorted.Pairwise (fun d e => (decode e).1.name ∉ (decode d).1.proxies) ∧
    ∀ d ∈ sorted, (decode d).1.name ∉ (decode d).1.proxies

theorem sortLeaves_of_inv {nodes done : List ν} {left : Graph ν δ} {c : Counters ν} {index : Nat}
    {sorted : List δ} (hnames : (groups.map fun d => (decode d).1.name).Nodup)
    (hnodes : ∀ d ∈ groups, (decode d).1.name ∈ nodes)
    (hclosed : ∀ y ∈ nodes, ∀ z ∈ proxiesOf decode groups y, z ∈ nodes)
    (h : SortInv decode groups nodes left c [] done index sorted) :
    SortLeaves decode groups left sorted := by
  have hinv := h.inv
  have htracks := h.tracks
  refine ⟨closed_of_inv hclosed hinv htracks, ?_, ?_, mem_iff_of_inv hnodes hclosed hinv htracks, ?_⟩
  · intro x node hx
    have hlabel := label_of_inv hinv htracks hx
    exact ⟨congrArg (·.2.1) hlabel, congrArg (·.2.2) hlabel⟩
  · intro x hx
    rw [proxiesAt, groupAt_of_inv hinv htracks hx, proxiesOf]
    cases groupOf decode groups x <;> rfl
  · intro hzero
    refine sorted_of_inv hnames hnodes hinv ?_ h.placed
    rw [List.eq_nil_iff_forall_not_mem]
    intro x hx
    have hmem := AList.mem_keys.mp ((htracks.mem_live_iff hinv).mpr hx)
    rw [List.length_eq_zero_iff.mp hzero] at hmem
    cases hmem

/-- Step 1 on groups that decode and have distinct names: the first queue runs to its end. -/
theorem sort_spec (hdecode : ∀ d ∈ groups, (decode d).2 = none)
    (hnames : (groups.map fun d => (decode d).1.name).Nodup) (order : RangeOrder ν) :
    ∃ graph left sorted, buildGraph decode groups = .ok graph ∧
      topoLoop graph.keys.length graph (zeros .indegree graph (order.keys .roots graph.keys)) 0
        groups = some (left, sorted) ∧
      SortLeaves decode groups left sorted := by
  rcases buildGraph_built hdecode hnames with ⟨graph, hbuild, hbuilt⟩
  have htracks : SortTracks decode groups graph (startCounters .indegree graph) := by
    apply startCounters_tracks
    intro x node hx
    rw [sortLabel, hbuilt.group x node hx, (hbuilt.fresh x node hx).1, (hbuilt.fresh x node hx).2]
  have hcount : ∀ x, (graph.lookup x).elim 0 (·.get .indegree) =
      ((graph.keys.flatMap (proxiesOf decode groups)).count x : Int) := by
    intro x
    have hx := hbuilt.indegree x
    rw [List.count_nil] at hx
    exact (Int.add_zero _).symm.trans hx
  have hclosed : ∀ y ∈ graph.keys, ∀ z ∈ proxiesOf decode groups y, z ∈ graph.keys := by
    intro y _ z hz
    exact AList.mem_keys.mp ((hbuilt.closed y z hz).resolve_right List.not_mem_nil)
  have hnodes : ∀ d ∈ groups, (decode d).1.name ∈ graph.keys :=
    fun d hd => AList.mem_keys.mp (hbuilt.named d hd)
  have hstart : SortInv decode groups graph.keys graph (startCounters .indegree graph)
      (zeros .indegree graph (order.keys .roots graph.keys)) [] 0 groups :=
    ⟨startCounters_inv (order.perm .roots graph.keys) htracks hcount, htracks, rfl, rfl, by simp⟩
  rcases topoLoop_spec graph.keys_nodup hclosed hstart (length_live_le _ _) with
    ⟨left, c, done, index, sorted, hloop, hend⟩
  exact ⟨graph, left, sorted, hbuild, hloop, sortLeaves_of_inv hnames hnodes hclosed hend⟩

/-- The graph the sort leaves is empty exactly if there is no cycle. -/
theorem SortLeaves.empty_iff {left : Graph ν δ} {sorted : List δ}
    (h : SortLeaves decode groups left sorted)
    (hnames : (groups.map fun d => (decode d).1.name).Nodup) :
    left.keys.length = 0 ↔ ¬ ∃ d, TransGen (RefersTo decode groups) d d := by
  rw [← exists_cycle_iff hnames, List.length_eq_zero_iff, List.eq_nil_iff_forall_not_mem]
  constructor
  · intro hempty ⟨x, hcycle⟩
    exact hempty x (AList.mem_keys.mp ((h.mem_iff x).mpr ⟨x, hcycle, .refl⟩))
  · intro hno x hx
    rcases (h.mem_iff x).mp (AList.mem_keys.mpr hx) with ⟨y, hcycle, -⟩
    exact hno ⟨y, hcycle⟩

/-- For every order in which the maps are iterated, `proxyGroupsDagSort` returns; it
returns no error exactly if no chain of references leads from a group back to itself,
and then the slice is rearranged so that each group stands after those in its list. -/
theorem proxyGroupsDagSort_correct (decode : δ → GroupCommonOption ν × Option Str)
    (order : RangeOrder ν) (groupsConfig : List δ)
    (hdecode : ∀ d ∈ groupsConfig, (decode d).2 = none)
    (hnames : (groupsConfig.map fun d => (decode d).1.name).Nodup) :
    ∃ r, proxyGroupsDagSort decode order groupsConfig = some r ∧
      (r.err.isNone ↔ ¬ ∃ d, TransGen (RefersTo decode groupsConfig) d d) ∧
      (r.err.isNone → r.groupsConfig.Perm groupsConfig ∧
        ∀ (i j : Nat) (d e : δ), r.groupsConfig[i]? = some d → r.groupsConfig[j]? = some e →
          (decode e).1.name ∈ (decode d).1.proxies → j < i) := by
  rcases sort_spec hdecode hnames order with ⟨graph, left, sorted, hbuild, hloop, hleft⟩
  have hcycle := hleft.empty_iff hnames
  rw [proxyGroupsDagSort, hbuild]
  simp only [hloop]
  by_cases hempty : left.keys.length = 0
  · rw [if_pos hempty]
    obtain ⟨hperm, hpairs, hself⟩ := hleft.sorted hempty
    refine ⟨_, rfl, iff_of_true rfl (hcycle.mp hempty), fun _ => ⟨hperm, ?_⟩⟩
    intro i j d e hi hj hde
    exact lt_of_pairwise hpairs hself hi hj hde
  · rw [if_neg hempty]
    have hrebuild : ∀ x ∈ order.keys .rebuild left.keys, x ∈ left :=
      fun x hx => AList.mem_keys.mpr ((order.perm .rebuild left.keys).mem_iff.mp hx)
    obtain ⟨filled, hfill, hfilled, -⟩ := fill_filled hleft.closed hleft.fresh hrebuild
    obtain ⟨rest, hrest, -⟩ := hfilled.leavesLoop_spec (order.perm .leaves filled.keys)
    simp only [hfill, hrest]
    refine ⟨_, rfl, iff_of_false (by simp) (fun hno => hempty (hcycle.mpr hno)), ?_⟩
    intro herr
    cases herr

end Correctness

def listOrder : RangeOrder Str := ⟨fun _ names => names, fun _ names => List.Perm.refl names⟩

def asIs (d : GroupCommonOption Str) : GroupCommonOption Str × Option Str := (d, none)

/-- A group before the one it refers to, and a plain proxy named twice. -/
def twoGroups : List (GroupCommonOption Str) :=
  [⟨str "a", [str "DIRECT", str "b", str "DIRECT"]⟩, ⟨str "b", [str "DIRECT"]⟩]

theorem proxyGroupsDagSort_twoGroups :
    (∀ d ∈ twoGroups, (asIs d).2 = none) ∧
      (twoGroups.map fun d => d.name).Nodup ∧
      ∃ r, proxyGroupsDagSort asIs listOrder twoGroups = some r ∧
        (r.err.isNone ↔ ¬ ∃ d, TransGen (RefersTo asIs twoGroups) d d) ∧
        (r.err.isNone → r.groupsConfig.Perm twoGroups ∧
          ∀ (i j : Nat) (d e : GroupCommonOption Str), r.groupsConfig[i]? = some d →
            r.groupsConfig[j]? = some e → e.name ∈ d.proxies → j < i) :=
  ⟨fun _ _ => rfl, by decide,
    proxyGroupsDagSort_correct asIs listOrder twoGroups (fun _ _ => rfl) (by decide)⟩

end RuleBaseProxy.Config.GroupSort
