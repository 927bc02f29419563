import RuleBaseProxy.Lib.Kahn
import RuleBaseProxy.Lib.GoString
import Mathlib.Data.List.AList

/-! # The graph of the proxy groups

`proxyGroupsDagSort` counts the references to every name, takes off the names
without one and writes the groups among them into the slice, from its end
towards its start. If something is left, it goes on to find the loop in it.
Here are the function and the graph it starts from.
-/

namespace RuleBaseProxy.Config.GroupSort

open Go Kahn

/-- The fields of `outboundgroup.GroupCommonOption` that are read here. Of the names,
strings in the source, only equality is used. -/
structure GroupCommonOption (ν : Type) where
  name : ν
  proxies : List ν

inductive SortError (ν : Type) where
  /-- "ProxyGroup %s: %s" -/
  | decode (name : ν) (err : Str)
  /-- "ProxyGroup %s: duplicate group name" -/
  | duplicateName (name : ν)
  /-- "loop is detected in ProxyGroup, please check following ProxyGroups: %v" -/
  | loop (loopElements : List ν)

/-- `graphNode`, where `group` is `data` and `option`, which are set together. -/
structure GraphNode (ν δ : Type) where
  indegree : Int
  outdegree : Int
  group : Option (δ × GroupCommonOption ν)
  froms : List ν

abbrev Graph (ν δ : Type) := AList fun _ : ν => GraphNode ν δ

inductive RangeLoop where
  | roots
  | rebuild
  | leaves
  | report

/-- Go fixes no order for them. -/
structure RangeOrder (ν : Type) where
  keys : RangeLoop → List ν → List ν
  perm : ∀ loop names, (keys loop names).Perm names

/-- The error, if any, and the slice `groupsConfig` afterwards. -/
structure SortResult (ν δ : Type) where
  err : Option (SortError ν)
  groupsConfig : List δ

section Definitions

variable {ν δ : Type} [DecidableEq ν]

/-! ## Step 1.1: the graph -/

def addProxy (graph : Graph ν δ) (proxy : ν) : Graph ν δ :=
  match graph.lookup proxy with
  | some node => graph.insert proxy { node with indegree := node.indegree + 1 }
  | none => graph.insert proxy ⟨1, 0, none, []⟩

/-- `decoder.Decode` fills the option as far as it gets, and may return an error. -/
def addGroup (decode : δ → GroupCommonOption ν × Option Str) (graph : Graph ν δ) (mapping : δ) :
    Except (SortError ν) (Graph ν δ) :=
  match decode mapping with
  | (option, some err) => .error (.decode option.name err)
  | (option, none) =>
      match graph.lookup option.name with
      | some node =>
          if node.group.isSome then .error (.duplicateName option.name)
          else .ok (option.proxies.foldl addProxy
            (graph.insert option.name { node with group := some (mapping, option) }))
      | none =>
          .ok (option.proxies.foldl addProxy
            (graph.insert option.name ⟨0, 0, some (mapping, option), []⟩))

def buildGraph (decode : δ → GroupCommonOption ν × Option Str) (groupsConfig : List δ) :
    Except (SortError ν) (Graph ν δ) :=
  groupsConfig.foldlM (addGroup decode) ∅

/-! ## Step 1.2: the sort -/

inductive Degree where
  | indegree
  | outdegree

def GraphNode.get : Degree → GraphNode ν δ → Int
  | .indegree, node => node.indegree
  | .outdegree, node => node.outdegree

def GraphNode.set : Degree → GraphNode ν δ → Int → GraphNode ν δ
  | .indegree, node, k => { node with indegree := k }
  | .outdegree, node, k => { node with outdegree := k }

def zeros (degree : Degree) (graph : Graph ν δ) (names : List ν) : List ν :=
  names.filter fun name => (graph.lookup name).any fun node => node.get degree = 0

/-- Count down, and append to the queue at zero. `none` is the dereference of a missing node. -/
def decrement (degree : Degree) :
    Graph ν δ → List ν → List ν → Option (Graph ν δ × List ν)
  | graph, queue, [] => some (graph, queue)
  | graph, queue, name :: names =>
      match graph.lookup name with
      | none => none
      | some node =>
          let k := node.get degree - 1
          decrement degree (graph.insert name (node.set degree k))
            (if k = 0 then queue ++ [name] else queue) names

/-- The loop over the queue. `none` is a panic, or a loop that has not come to its end. -/
def topoLoop : Nat → Graph ν δ → List ν → Nat → List δ → Option (Graph ν δ × List δ)
  | _, graph, [], _, groupsConfig => some (graph, groupsConfig)
  | 0, _, _ :: _, _, _ => none
  | turns + 1, graph, name :: queue, index, groupsConfig =>
      match graph.lookup name with
      | none => none
      | some node =>
          match node.group with
          | none => topoLoop turns (graph.erase name) queue index groupsConfig
          | some (data, option) =>
              -- the slice index `len(groupsConfig)-index`
              if groupsConfig.length < index + 1 then none
              else
                match decrement .indegree graph queue option.proxies with
                | none => none
                | some (graph, queue) =>
                    topoLoop turns (graph.erase name) queue (index + 1)
                      (groupsConfig.set (groupsConfig.length - (index + 1)) data)

/-! ## Step 2: the loop in what is left -/

def fillRef (name : ν) (graph : Graph ν δ) (proxy : ν) : Option (Graph ν δ) :=
  match graph.lookup name with
  | none => none
  | some node =>
      let graph := graph.insert name { node with outdegree := node.outdegree + 1 }
      match graph.lookup proxy with
      | none => none
      | some child => some (graph.insert proxy { child with froms := child.froms ++ [name] })

def fillNode (graph : Graph ν δ) (name : ν) : Option (Graph ν δ) :=
  match graph.lookup name with
  | none => none
  | some node =>
      match node.group with
      | none => some graph
      | some (_, option) => option.proxies.foldlM (fillRef name) graph

def fill (graph : Graph ν δ) (names : List ν) : Option (Graph ν δ) := names.foldlM fillNode graph

def leavesLoop : Nat → Graph ν δ → List ν → Option (Graph ν δ)
  | _, graph, [] => some graph
  | 0, _, _ :: _ => none
  | turns + 1, graph, name :: queue =>
      match graph.lookup name with
      | none => none
      | some node =>
          match decrement .outdegree graph queue node.froms with
          | none => none
          | some (graph, queue) => leavesLoop turns (graph.erase name) queue

/-- `proxyGroupsDagSort`. Each queue takes as many turns as there are nodes, at most. -/
def proxyGroupsDagSort (decode : δ → GroupCommonOption ν × Option Str) (order : RangeOrder ν)
    (groupsConfig : List δ) : Option (SortResult ν δ) :=
  match buildGraph decode groupsConfig with
  | .error err => some ⟨some err, groupsConfig⟩
  | .ok graph =>
      match topoLoop graph.keys.length graph
          (zeros .indegree graph (order.keys .roots graph.keys)) 0 groupsConfig with
      | none => none
      | some (graph, groupsConfig) =>
          if graph.keys.length = 0 then some ⟨none, groupsConfig⟩
          else
            match fill graph (order.keys .rebuild graph.keys) with
            | none => none
            | some graph =>
                match leavesLoop graph.keys.length graph
                    (zeros .outdegree graph (order.keys .leaves graph.keys)) with
                | none => none
                | some graph =>
                    some ⟨some (.loop (order.keys .report graph.keys)), groupsConfig⟩

end Definitions

/-! ## What the graph is -/

section Graphs

variable {ν δ : Type} [DecidableEq ν] {decode : δ → GroupCommonOption ν × Option Str} {groups : List δ}
  {graph : Graph ν δ} {pending : List ν}

def groupOf (decode : δ → GroupCommonOption ν × Option Str) (groups : List δ) (x : ν) :
    Option (δ × GroupCommonOption ν) :=
  (groups.find? fun d => (decode d).1.name = x).map fun d => (d, (decode d).1)

def proxiesOf (decode : δ → GroupCommonOption ν × Option Str) (groups : List δ) (x : ν) : List ν :=
  (groupOf decode groups x).elim [] (·.2.proxies)

theorem groupOf_eq_some {x : ν} {group : δ × GroupCommonOption ν}
    (h : groupOf decode groups x = some group) :
    group.1 ∈ groups ∧ group.2 = (decode group.1).1 ∧ group.2.name = x := by
  obtain ⟨d, hd, rfl⟩ := Option.map_eq_some_iff.mp h
  exact ⟨List.mem_of_find?_eq_some hd, rfl, by simpa using List.find?_some hd⟩

theorem groupOf_eq_none {x : ν} :
    groupOf decode groups x = none ↔ ∀ d ∈ groups, (decode d).1.name ≠ x := by
  simp [groupOf]

theorem proxiesOf_of_groupOf_eq_none {x : ν} (h : groupOf decode groups x = none) :
    proxiesOf decode groups x = [] := by
  rw [proxiesOf, h]
  rfl

theorem groupOf_append_of_ne {d : δ} {x : ν} (hx : x ≠ (decode d).1.name) :
    groupOf decode (groups ++ [d]) x = groupOf decode groups x := by
  have hd : [d].find? (fun d => (decode d).1.name = x) = none := by simp [hx.symm]
  rw [groupOf, List.find?_append, hd, Option.or_none, groupOf]

theorem groupOf_append_self {d : δ} (hd : groupOf decode groups (decode d).1.name = none) :
    groupOf decode (groups ++ [d]) (decode d).1.name = some (d, (decode d).1) := by
  have hnone : groups.find? (fun e => (decode e).1.name = (decode d).1.name) = none :=
    Option.map_eq_none_iff.mp hd
  rw [groupOf, List.find?_append, hnone]
  simp

theorem proxiesOf_append_of_ne {d : δ} {x : ν} (hx : x ≠ (decode d).1.name) :
    proxiesOf decode (groups ++ [d]) x = proxiesOf decode groups x := by
  rw [proxiesOf, groupOf_append_of_ne hx, proxiesOf]

theorem proxiesOf_append_self {d : δ} (hd : groupOf decode groups (decode d).1.name = none) :
    proxiesOf decode (groups ++ [d]) (decode d).1.name = (decode d).1.proxies := by
  rw [proxiesOf, groupOf_append_self hd]
  rfl

def indegreeOf (graph : Graph ν δ) (x : ν) : Int := (graph.lookup x).elim 0 (·.indegree)

/-- The graph of these groups, except that the names in `pending` have still to be counted. -/
structure Built (decode : δ → GroupCommonOption ν × Option Str) (groups : List δ) (pending : List ν)
    (graph : Graph ν δ) : Prop where
  group : ∀ x node, graph.lookup x = some node → node.group = groupOf decode groups x
  fresh : ∀ x node, graph.lookup x = some node → node.outdegree = 0 ∧ node.froms = []
  named : ∀ d ∈ groups, (decode d).1.name ∈ graph
  closed : ∀ x, ∀ p ∈ proxiesOf decode groups x, p ∈ graph ∨ p ∈ pending
  indegree : ∀ x, indegreeOf graph x + pending.count x =
    ((graph.keys.flatMap (proxiesOf decode groups)).count x : Int)

theorem Built.groupOf_eq_none_of_notMem (h : Built decode groups pending graph) {x : ν}
    (hx : x ∉ graph) : groupOf decode groups x = none := by
  refine groupOf_eq_none.mpr fun d hd heq => hx ?_
  rw [← heq]
  exact h.named d hd

theorem keys_insert_perm {x : ν} (hx : x ∈ graph) (node : GraphNode ν δ) :
    (graph.insert x node).keys.Perm graph.keys := by
  rw [AList.keys_insert]
  exact (List.perm_cons_erase (AList.mem_keys.mp hx)).symm

theorem count_keys_insert {f : ν → List ν} {x : ν} (h : x ∈ graph ∨ f x = [])
    (node : GraphNode ν δ) (y : ν) :
    ((graph.insert x node).keys.flatMap f).count y = (graph.keys.flatMap f).count y := by
  by_cases hx : x ∈ graph
  · exact ((keys_insert_perm hx node).flatMap_right f).count_eq y
  · rw [AList.keys_insert, List.erase_of_not_mem (fun hin => hx (AList.mem_keys.mpr hin)),
      List.flatMap_cons, h.resolve_left hx, List.nil_append]

theorem forall_lookup_insert {P : ν → GraphNode ν δ → Prop} {p : ν} {node : GraphNode ν δ}
    (hp : P p node) (h : ∀ x n, graph.lookup x = some n → P x n) :
    ∀ x n, (graph.insert p node).lookup x = some n → P x n := by
  intro x n hx
  by_cases hxp : x = p
  · subst hxp
    rw [AList.lookup_insert] at hx
    cases hx
    exact hp
  · rw [AList.lookup_insert_ne hxp] at hx
    exact h x n hx

/-- What a field reads after a node has been stored, with `z` for a missing node. -/
theorem elim_lookup_insert {γ : Type} (φ : GraphNode ν δ → γ) (z : γ) (a : ν) (node : GraphNode ν δ)
    (x : ν) :
    ((graph.insert a node).lookup x).elim z φ =
      if x = a then φ node else (graph.lookup x).elim z φ := by
  by_cases hx : x = a
  · subst hx
    rw [AList.lookup_insert, if_pos rfl, Option.elim_some]
  · rw [AList.lookup_insert_ne hx, if_neg hx]

theorem elim_lookup_insert_of_eq {γ : Type} {φ : GraphNode ν δ → γ} {z : γ} {a : ν}
    {node : GraphNode ν δ} (h : φ node = (graph.lookup a).elim z φ) (x : ν) :
    ((graph.insert a node).lookup x).elim z φ = (graph.lookup x).elim z φ := by
  rw [elim_lookup_insert]
  by_cases hx : x = a
  · subst hx
    rw [if_pos rfl, h]
  · rw [if_neg hx]

theorem mem_insert_of_mem {p x : ν} {node : GraphNode ν δ} (h : x ∈ graph) :
    x ∈ graph.insert p node := (AList.mem_insert graph).mpr (Or.inr h)

theorem mem_insert_self {p : ν} {node : GraphNode ν δ} : p ∈ graph.insert p node :=
  (AList.mem_insert graph).mpr (Or.inl rfl)

theorem Built.addProxy_eq (h : Built decode groups pending graph) (p : ν) :
    ∃ node, addProxy graph p = graph.insert p node ∧ node.indegree = indegreeOf graph p + 1 ∧
      node.group = groupOf decode groups p ∧ node.outdegree = 0 ∧ node.froms = [] := by
  unfold addProxy indegreeOf
  cases hlookup : graph.lookup p with
  | some node => exact ⟨_, rfl, rfl, h.group p node hlookup, h.fresh p node hlookup⟩
  | none =>
      have hp : p ∉ graph := AList.lookup_eq_none.mp hlookup
      exact ⟨_, rfl, rfl, (h.groupOf_eq_none_of_notMem hp).symm, rfl, rfl⟩

theorem Built.add_proxy {p : ν} (h : Built decode groups (p :: pending) graph) :
    Built decode groups pending (addProxy graph p) := by
  obtain ⟨node, hadd, hindegree, hgroup, hfresh⟩ := h.addProxy_eq p
  rw [hadd]
  refine ⟨forall_lookup_insert hgroup h.group, forall_lookup_insert hfresh h.fresh,
    fun d hd => mem_insert_of_mem (h.named d hd), ?_, ?_⟩
  · intro x q hq
    obtain hin | hin := h.closed x q hq
    · exact Or.inl (mem_insert_of_mem hin)
    · obtain rfl | hin := List.mem_cons.mp hin
      · exact Or.inl mem_insert_self
      · exact Or.inr hin
  · intro x
    have hmem : p ∈ graph ∨ proxiesOf decode groups p = [] := by
      by_cases hp : p ∈ graph
      · exact Or.inl hp
      · exact Or.inr (proxiesOf_of_groupOf_eq_none (h.groupOf_eq_none_of_notMem hp))
    rw [count_keys_insert hmem, ← h.indegree x, indegreeOf, elim_lookup_insert, ← indegreeOf]
    by_cases hxp : x = p
    · subst hxp
      rw [if_pos rfl, hindegree, List.count_cons_self]
      omega
    · rw [if_neg hxp, List.count_cons_of_ne (Ne.symm hxp)]

theorem Built.add_proxies (h : Built decode groups pending graph) :
    Built decode groups [] (pending.foldl addProxy graph) := by
  induction pending generalizing graph with
  | nil => exact h
  | cons p pending ih => exact ih h.add_proxy

/-- The references of a new group come on top of those before. -/
theorem count_proxiesOf_append {d : δ} (hd : groupOf decode groups (decode d).1.name = none)
    (node : GraphNode ν δ) (x : ν) :
    ((graph.insert (decode d).1.name node).keys.flatMap (proxiesOf decode (groups ++ [d]))).count x =
      (graph.keys.flatMap (proxiesOf decode groups)).count x + (decode d).1.proxies.count x := by
  have hnil : proxiesOf decode groups (decode d).1.name = [] := proxiesOf_of_groupOf_eq_none hd
  have hother : ∀ z, z ≠ (decode d).1.name →
      proxiesOf decode (groups ++ [d]) z = proxiesOf decode groups z :=
    fun z hz => proxiesOf_append_of_ne hz
  have hcount := count_flatMap_of_eq_off (graph.insert (decode d).1.name node).keys_nodup
    (AList.mem_keys.mp mem_insert_self) hother x
  rwa [proxiesOf_append_self hd, hnil, count_keys_insert (Or.inr hnil), List.count_nil,
    Nat.add_zero] at hcount

/-- A group under a new name: its list has then to be counted. -/
theorem Built.insert_group {d : δ} {node : GraphNode ν δ} (h : Built decode groups [] graph)
    (hd : groupOf decode groups (decode d).1.name = none)
    (hgroup : node.group = some (d, (decode d).1))
    (hindegree : node.indegree = indegreeOf graph (decode d).1.name)
    (hfresh : node.outdegree = 0 ∧ node.froms = []) :
    Built decode (groups ++ [d]) (decode d).1.proxies (graph.insert (decode d).1.name node) := by
  refine ⟨?_, forall_lookup_insert hfresh h.fresh, ?_, ?_, ?_⟩
  · intro x n hx
    by_cases hxd : x = (decode d).1.name
    · subst hxd
      rw [AList.lookup_insert] at hx
      cases hx
      rw [hgroup, groupOf_append_self hd]
    · rw [AList.lookup_insert_ne hxd] at hx
      rw [groupOf_append_of_ne hxd, h.group x n hx]
  · intro e he
    obtain he | he := List.mem_append.mp he
    · exact mem_insert_of_mem (h.named e he)
    · rw [List.mem_singleton.mp he]
      exact mem_insert_self
  · intro x p hp
    by_cases hxd : x = (decode d).1.name
    · subst hxd
      rw [proxiesOf_append_self hd] at hp
      exact Or.inr hp
    · rw [proxiesOf_append_of_ne hxd] at hp
      exact Or.inl (mem_insert_of_mem ((h.closed x p hp).resolve_right List.not_mem_nil))
  · intro x
    have hold := h.indegree x
    rw [List.count_nil] at hold
    rw [count_proxiesOf_append hd, indegreeOf, elim_lookup_insert_of_eq hindegree, ← indegreeOf]
    omega

theorem Built.addGroup_eq {d : δ} (h : Built decode groups [] graph)
    (hdecode : (decode d).2 = none) (hd : groupOf decode groups (decode d).1.name = none) :
    ∃ graph', addGroup decode graph d = .ok graph' ∧ Built decode (groups ++ [d]) [] graph' := by
  have hpair : decode d = ((decode d).1, none) := by rw [← hdecode]
  unfold addGroup
  rw [hpair]
  cases hlookup : graph.lookup (decode d).1.name with
  | some node =>
      have hnone : node.group.isSome = false := by
        rw [h.group _ node hlookup, hd]
        rfl
      have hindegree : node.indegree = indegreeOf graph (decode d).1.name := by
        rw [indegreeOf, hlookup]
        rfl
      simp only [hlookup, hnone]
      refine ⟨_, rfl, Built.add_proxies (h.insert_group hd ?_ ?_ ?_)⟩
      · rfl
      · exact hindegree
      · exact h.fresh _ node hlookup
  | none =>
      have hindegree : 0 = indegreeOf graph (decode d).1.name := by
        rw [indegreeOf, hlookup]
        rfl
      simp only [hlookup]
      exact ⟨_, rfl, (h.insert_group hd rfl hindegree ⟨rfl, rfl⟩).add_proxies⟩

theorem Built.empty : Built decode [] [] (∅ : Graph ν δ) := by
  refine ⟨fun x node hx => ?_, fun x node hx => ?_, fun d hd => ?_, fun x p hp => ?_, fun x => rfl⟩
  · cases hx
  · cases hx
  · cases hd
  · cases hp

theorem Built.addGroups {rest : List δ} (h : Built decode groups [] graph)
    (hdecode : ∀ d ∈ rest, (decode d).2 = none)
    (hnames : ((groups ++ rest).map fun d => (decode d).1.name).Nodup) :
    ∃ graph', rest.foldlM (addGroup decode) graph = .ok graph' ∧
      Built decode (groups ++ rest) [] graph' := by
  induction rest generalizing groups graph with
  | nil =>
      rw [List.append_nil]
      exact ⟨graph, rfl, h⟩
  | cons d rest ih =>
      have hd : groupOf decode groups (decode d).1.name = none := by
        rw [List.map_append, List.map_cons, List.nodup_append] at hnames
        refine groupOf_eq_none.mpr fun e he => ?_
        exact hnames.2.2 _ (List.mem_map_of_mem he) _ List.mem_cons_self
      obtain ⟨graph₁, hadd, h₁⟩ := h.addGroup_eq (hdecode d List.mem_cons_self) hd
      rw [List.append_cons] at hnames ⊢
      rw [List.foldlM_cons, hadd]
      exact ih h₁ (fun e he => hdecode e (List.mem_cons_of_mem d he)) hnames

/-- Step 1.1 on groups that decode and have distinct names. -/
theorem buildGraph_built (hdecode : ∀ d ∈ groups, (decode d).2 = none)
    (hnames : (groups.map fun d => (decode d).1.name).Nodup) :
    ∃ graph, buildGraph decode groups = .ok graph ∧ Built decode groups [] graph :=
  Built.empty.addGroups hdecode hnames

end Graphs

end RuleBaseProxy.Config.GroupSort
