import RuleBaseProxy.Config.LoopReport
import RuleBaseProxy.OutboundGroup.Parser

/-! # Parsing the proxies of a configuration

`parseProxies` declares the proxies of the file, sorts the groups, loads the
providers and then makes the groups one after another, looking up the members of
each among what has been declared so far. The order in which the file lists the
groups is not to matter, nor is the order in which Go iterates over a map, except
that a provider may find the file that another one has written.
-/

namespace RuleBaseProxy.Config.Parse

open Go Structure Provider Checked OutboundGroup.Parser GroupSort Relation

inductive ParseError where
  /-- "proxy %d: %w" -/
  | proxy (idx : Nat) (err : Str)
  /-- "proxy %s is the duplicate name" -/
  | duplicateProxy (name : Str)
  /-- "proxy group %d: missing name" -/
  | missingName (idx : Nat)
  /-- of `proxyGroupsDagSort` -/
  | sort (err : SortError Str)
  /-- "can not defined a provider called `default`" -/
  | reserved
  /-- "parse proxy provider %s error: %w" -/
  | provider (name err : Str)
  /-- "initial proxy provider %s error: %w" -/
  | initial (name err : Str)
  /-- "proxy group[%d]: %w" -/
  | group (idx : Nat) (err : GroupError)
  /-- "proxy group %s: the duplicate name" -/
  | duplicateGroup (name : Str)

abbrev Check (α : Type) := Except (Failure ParseError) α

/-- The order of a loop over a map, which Go does not fix. -/
structure Range (α : Type) where
  visit : List α → List α
  perm : ∀ l, (visit l).Perm l

structure RangeOrders where
  sort : RangeOrder Str
  parse : Range (Str × List (Str × Src))
  initial : Range (Str × ProxySet)

/-- The fields of `RawConfig` that are read here; `proxyProvider` is a map. -/
structure RawConfig (env : Env) (μ : Type) where
  proxy : List μ
  proxyGroup : List (GroupMapping env)
  proxyProvider : List (Str × List (Str × Src))
  nodup : (proxyProvider.map Prod.fst).Nodup

structure Parsed (φ σ : Type) where
  proxies : NameMap (Proxy σ)
  providersMap : NameMap (ProxyProvider (Proxy σ))
  files : φ

section Definitions

variable {env : Env} {φ β μ σ : Type} (out : Outside φ β μ (Outbound σ))

/-- The body of the loop over `proxies`, on the map and on `proxyList`. -/
def addProxy (s : NameMap (Proxy σ) × List Str) (entry : μ × Nat) :
    Check (NameMap (Proxy σ) × List Str) :=
  match out.parseProxy entry.1 with
  | .error .panic => .error .panic
  | .error (.error err) => .error (.error (.proxy entry.2 err))
  | .ok proxy =>
      if (s.1 proxy.name).isSome then .error (.error (.duplicateProxy proxy.name))
      else .ok (Function.update s.1 proxy.name (some (.outbound proxy)), s.2 ++ [proxy.name])

def builtin : NameMap (Proxy σ) :=
  Function.update (Function.update (fun _ => none) (str "DIRECT") (some .direct))
    (str "REJECT") (some .reject)

/-- The body of the loop that reads the names of the groups. -/
def readName (entry : GroupMapping env × Nat) : Check Str :=
  match entry.1.nameString with
  | none => .error (.error (.missingName entry.2))
  | some groupName => .ok groupName

/-- The option that `proxyGroupsDagSort` decodes, as far as it reads it. -/
def sortOption (mapping : GroupMapping env) :
    GroupSort.GroupCommonOption Str × Option Str :=
  (⟨(mapping.decode false).1.name, (mapping.decode false).1.proxies⟩, (mapping.decode false).2)

/-- The first loop of `proxyGroupsDagSort` decodes group by group. So it comes to a group on which
the decoder panics only if the groups before that one are in order. -/
def sortGroups (order : RangeOrder Str) (groupsConfig : List (GroupMapping env)) :
    Check (List (GroupMapping env)) :=
  match buildGraph sortOption (groupsConfig.takeWhile fun d => d.Returns false) with
  | .error err => .error (.error (.sort err))
  | .ok _ =>
      if ∀ d ∈ groupsConfig, d.Returns false then
        match proxyGroupsDagSort sortOption order groupsConfig with
        | none => .error .panic
        | some r =>
            match r.err with
            | some err => .error (.error (.sort err))
            | none => .ok r.groupsConfig
      else .error .panic

/-- The body of the loop over `proxy-providers`. -/
def parseProvider (env : Env) (entry : Str × List (Str × Src)) : Check (Str × ProxySet) :=
  if entry.1 = reservedName then .error (.error .reserved)
  else
    match parseProxyProvider env out.resolve entry.1 entry.2 with
    | .error .panic => .error .panic
    | .error (.error err) => .error (.error (.provider entry.1 err))
    | .ok pd => .ok (entry.1, pd)

/-- The body of the loop that initialises the providers. -/
def initialProvider (fs : φ) (entry : Str × ProxySet) :
    Check ((Str × ProxyProvider (Proxy σ)) × φ) :=
  match out.initialSet fs entry.2 with
  | .error .panic => .error .panic
  | .error (.error err) => .error (.error (.initial entry.2.name err))
  | .ok (pd, files) => .ok ((entry.1, { pd with proxies := pd.proxies.map .outbound }), files)

/-- The two loops over the providers. -/
def loadProviders (order : RangeOrders) (cfg : RawConfig env μ) (fs : φ) :
    Check (List (Str × ProxyProvider (Proxy σ)) × φ) := do
  let sets ← (order.parse.visit cfg.proxyProvider).mapM (parseProvider out env)
  thread (initialProvider out) fs (order.initial.visit sets)

/-- The body of the loop over the sorted groups. -/
def addGroup (s : NameMap (Proxy σ) × NameMap (ProxyProvider (Proxy σ)))
    (entry : GroupMapping env × Nat) :
    Check (NameMap (Proxy σ) × NameMap (ProxyProvider (Proxy σ))) :=
  match parseProxyGroup entry.1 s.1 s.2 with
  | .error .panic => .error .panic
  | .error (.error err) => .error (.error (.group entry.2 err))
  | .ok (group, providersMap) =>
      if (s.1 group.name).isSome then .error (.error (.duplicateGroup group.name))
      else .ok (Function.update s.1 group.name (some group), providersMap)

def globalOption : GroupCommonOption := ⟨str "GLOBAL", [], [], [], [], 0, false, false⟩

/-- The provider and the selector of all proxies. A name without a proxy would put a nil
into the list; it counts as a panic here. -/
def newGlobal (proxies : NameMap (Proxy σ)) (proxyList : List Str) :
    Check (ProxyProvider (Proxy σ) × Proxy σ) :=
  match proxyList.mapM proxies with
  | none => .error .panic
  | some ps =>
      match newCompatibleProvider reservedName ps noHealthCheck with
      | .error _ => .error .panic
      | .ok pd =>
          match newSelector globalOption [pd] with
          | .error _ => .error .panic
          | .ok global => .ok (pd, global)

/-- `parseProxies`. Initialising the providers that groups have made does nothing. -/
def parseProxies (order : RangeOrders) (cfg : RawConfig env μ) (fs : φ) :
    Check (Parsed φ σ) := do
  let (proxies, proxyList) ←
    cfg.proxy.zipIdx.foldlM (addProxy out) (builtin, [str "DIRECT", str "REJECT"])
  let groupNames ← cfg.proxyGroup.zipIdx.mapM readName
  let groupsConfig ← sortGroups order.sort cfg.proxyGroup
  let (loaded, files) ← loadProviders out order cfg fs
  let (proxies, providersMap) ←
    groupsConfig.zipIdx.foldlM addGroup (proxies, fun name => loaded.lookup name)
  let (pd, global) ← newGlobal proxies (proxyList ++ groupNames)
  .ok ⟨Function.update proxies (str "GLOBAL") (some global),
    Function.update providersMap reservedName (some pd), files⟩

end Definitions

/-! ## The proxies -/

section Outbounds

variable {φ β μ σ : Type} {out : Outside φ β μ (Outbound σ)} {proxies : NameMap (Proxy σ)}

def outbounds (out : Outside φ β μ (Outbound σ)) (l : List μ) : List (Outbound σ) :=
  l.filterMap fun mapping => (out.parseProxy mapping).toOption

def declare (proxies : NameMap (Proxy σ)) (os : List (Outbound σ)) : NameMap (Proxy σ) :=
  os.foldl (fun proxies o => Function.update proxies o.name (some (.outbound o))) proxies

theorem isSome_declare (os : List (Outbound σ)) (name : Str) :
    (declare proxies os name).isSome ↔ (proxies name).isSome ∨ name ∈ os.map (·.name) := by
  induction os generalizing proxies with
  | nil => simp [declare]
  | cons o os ih =>
      have hcons : declare proxies (o :: os) =
          declare (Function.update proxies o.name (some (.outbound o))) os := rfl
      rw [hcons, ih, List.map_cons, List.mem_cons]
      by_cases hname : name = o.name
      · subst hname
        simp
      · rw [Function.update_of_ne hname]
        simp [hname]

theorem declare_of_notMem {os : List (Outbound σ)} {name : Str} (h : name ∉ os.map (·.name)) :
    declare proxies os name = proxies name := by
  induction os generalizing proxies with
  | nil => rfl
  | cons o os ih =>
      rw [List.map_cons, List.mem_cons, not_or] at h
      exact (ih h.2).trans (Function.update_of_ne h.1 _ _)

theorem declare_of_mem {os : List (Outbound σ)} (hnodup : (os.map (·.name)).Nodup) {o : Outbound σ}
    (ho : o ∈ os) : declare proxies os o.name = some (.outbound o) := by
  induction os generalizing proxies with
  | nil => cases ho
  | cons o' os ih =>
      rw [List.map_cons, List.nodup_cons] at hnodup
      obtain rfl | ho := List.mem_cons.mp ho
      · exact (declare_of_notMem hnodup.1).trans (Function.update_self _ _ _)
      · exact ih hnodup.2 ho

theorem addProxy_eq_ok {s r : NameMap (Proxy σ) × List Str} {entry : μ × Nat} :
    addProxy out s entry = .ok r ↔ ∃ o, out.parseProxy entry.1 = .ok o ∧ s.1 o.name = none ∧
      r = (Function.update s.1 o.name (some (.outbound o)), s.2 ++ [o.name]) := by
  unfold addProxy
  cases out.parseProxy entry.1 with
  | error err => cases err <;> simp
  | ok o =>
      simp only [Except.ok.injEq, exists_eq_left']
      cases s.1 o.name with
      | none => simp [eq_comm]
      | some p => simp

/-- The loop comes to its end if all proxies parse and no name is taken. -/
theorem foldlM_addProxy_eq_ok {l : List μ} {k : Nat} {proxyList : List Str}
    {r : NameMap (Proxy σ) × List Str} :
    (l.zipIdx k).foldlM (addProxy out) (proxies, proxyList) = .ok r ↔
      (∀ mapping ∈ l, ∃ o, out.parseProxy mapping = .ok o) ∧
      ((outbounds out l).map (·.name)).Nodup ∧
      (∀ name ∈ (outbounds out l).map (·.name), proxies name = none) ∧
      r = (declare proxies (outbounds out l), proxyList ++ (outbounds out l).map (·.name)) := by
  induction l generalizing k proxies proxyList with
  | nil =>
      simp only [List.zipIdx_nil, List.foldlM_nil, outbounds, declare]
      simp [eq_comm, pure, Except.pure]
  | cons mapping l ih =>
      rw [List.zipIdx_cons, foldlM_cons_eq_ok]
      simp only [addProxy_eq_ok]
      cases hparse : out.parseProxy mapping with
      | error err =>
          refine iff_of_false ?_ ?_
          · rintro ⟨s, ⟨o, ho, -⟩, -⟩
            cases ho
          · intro h
            obtain ⟨o, ho⟩ := h.1 mapping List.mem_cons_self
            rw [hparse] at ho
            cases ho
      | ok o =>
          have houtbounds : outbounds out (mapping :: l) = o :: outbounds out l := by
            rw [outbounds, List.filterMap_cons, hparse]
            rfl
          rw [houtbounds, List.map_cons, List.nodup_cons, List.forall_mem_cons,
            List.forall_mem_cons]
          constructor
          · rintro ⟨s, ⟨o', ho', hfree, rfl⟩, hfold⟩
            cases ho'
            obtain ⟨hparses, hnodup, hfresh, rfl⟩ := ih.mp hfold
            have hnot : o.name ∉ (outbounds out l).map (·.name) := by
              intro hmem
              have hnone := hfresh o.name hmem
              rw [Function.update_self] at hnone
              cases hnone
            refine ⟨⟨⟨o, hparse⟩, hparses⟩, ⟨hnot, hnodup⟩, ⟨hfree, ?_⟩, ?_⟩
            · intro name hname
              rw [← hfresh name hname, Function.update_of_ne (ne_of_mem_of_not_mem hname hnot)]
            · rw [List.append_assoc]
              rfl
          · rintro ⟨⟨-, hparses⟩, ⟨hnot, hnodup⟩, ⟨hfree, hfresh⟩, rfl⟩
            refine ⟨_, ⟨o, rfl, hfree, rfl⟩, ih.mpr ⟨hparses, hnodup, ?_, ?_⟩⟩
            · intro name hname
              rw [Function.update_of_ne (ne_of_mem_of_not_mem hname hnot)]
              exact hfresh name hname
            · rw [List.append_assoc]
              rfl

end Outbounds

/-! ## The names and the order of the groups -/

section Sorting

variable {env : Env} {groups : List (GroupMapping env)}

def groupName (mapping : GroupMapping env) : Str := (mapping.decode true).1.name

theorem readName_eq_ok {entry : GroupMapping env × Nat} {name : Str} :
    readName entry = .ok name ↔ entry.1.nameString = some name := by
  unfold readName
  cases entry.1.nameString <;> simp

theorem mapM_readName_eq_ok {k : Nat} {names : List Str} :
    (groups.zipIdx k).mapM readName = .ok names ↔
      (∀ d ∈ groups, d.nameString.isSome) ∧ names = groups.map (·.nameString.getD []) := by
  rw [mapM_eq_ok]
  simp only [readName_eq_ok]
  induction groups generalizing k names with
  | nil => simp
  | cons d groups ih =>
      rw [List.zipIdx_cons, List.forall₂_cons_left_iff, List.forall_mem_cons, List.map_cons]
      constructor
      · rintro ⟨name, names', hname, hnames, rfl⟩
        obtain ⟨hnamed, rfl⟩ := ih.mp hnames
        have hname' : d.nameString = some name := hname
        exact ⟨⟨by rw [hname']; rfl, hnamed⟩, by rw [hname', Option.getD_some]⟩
      · rintro ⟨⟨hd, hnamed⟩, rfl⟩
        obtain ⟨name, hname⟩ := Option.isSome_iff_exists.mp hd
        exact ⟨name, _, hname, ih.mpr ⟨hnamed, rfl⟩, by rw [hname, Option.getD_some]⟩

/-- The names that are read are those that the decoder finds. -/
theorem map_nameString (hreturns : ∀ d ∈ groups, d.Returns true)
    (hnamed : ∀ d ∈ groups, d.nameString.isSome) :
    groups.map (·.nameString.getD []) = groups.map groupName := by
  refine List.map_congr_left fun d hd => ?_
  obtain ⟨name, hname⟩ := Option.isSome_iff_exists.mp (hnamed d hd)
  rw [hname, Option.getD_some, groupName, GroupMapping.decode_name (hreturns d hd) hname]

theorem sortOption_name (d : GroupMapping env) : (sortOption d).1.name = groupName d :=
  (d.decode_eq false true).1

theorem sortOption_proxies (d : GroupMapping env) :
    (sortOption d).1.proxies = (d.decode true).1.proxies := (d.decode_eq false true).2.1

theorem sortOption_err (d : GroupMapping env) : (sortOption d).2 = (d.decode true).2 :=
  (d.decode_eq false true).2.2

def HasMember (groups : List (GroupMapping env)) (d e : GroupMapping env) : Prop :=
  d ∈ groups ∧ e ∈ groups ∧ groupName e ∈ (d.decode true).1.proxies

theorem refersTo_eq_hasMember : RefersTo sortOption groups = HasMember groups := by
  funext d e
  rw [RefersTo, HasMember, sortOption_name, sortOption_proxies]

structure Sortable (groups : List (GroupMapping env)) : Prop where
  returns : ∀ d ∈ groups, d.Returns true
  decodes : ∀ d ∈ groups, (d.decode true).2 = none
  nodup : (groups.map groupName).Nodup
  acyclic : ¬ ∃ d, TransGen (HasMember groups) d d

/-- The groups in an order in which each comes after those in its list. -/
structure Sorts (groups sorted : List (GroupMapping env)) : Prop where
  perm : sorted.Perm groups
  before : ∀ a d b, sorted = a ++ d :: b → ∀ e ∈ groups,
    groupName e ∈ (d.decode true).1.proxies → e ∈ a

/-- The graph takes a group only if it decodes and its name is new. -/
theorem of_addGroup_eq_ok {graph graph' : GroupSort.Graph Str (GroupMapping env)}
    {d : GroupMapping env}
    (hbuilt : Built sortOption groups [] graph)
    (h : GroupSort.addGroup sortOption graph d = .ok graph') :
    (sortOption d).2 = none ∧ groupOf sortOption groups (sortOption d).1.name = none := by
  unfold GroupSort.addGroup at h
  cases hdecode : sortOption d with
  | mk option err =>
      simp only [hdecode] at h
      cases err with
      | some err => cases h
      | none =>
          refine ⟨rfl, ?_⟩
          cases hlookup : graph.lookup option.name with
          | none => exact hbuilt.groupOf_eq_none_of_notMem (AList.lookup_eq_none.mp hlookup)
          | some node =>
              simp only [hlookup] at h
              split at h
              · cases h
              · rename_i hnone
                rw [← hbuilt.group _ node hlookup]
                exact Option.not_isSome_iff_eq_none.mp hnone

theorem of_addGroups_eq_ok {graph graph' : GroupSort.Graph Str (GroupMapping env)}
    {rest : List (GroupMapping env)} (hbuilt : Built sortOption groups [] graph)
    (h : rest.foldlM (GroupSort.addGroup sortOption) graph = .ok graph') :
    (∀ d ∈ rest, (sortOption d).2 = none) ∧ (rest.map fun d => (sortOption d).1.name).Nodup ∧
      ∀ d ∈ rest, ∀ e ∈ groups, (sortOption e).1.name ≠ (sortOption d).1.name := by
  induction rest generalizing groups graph with
  | nil => simp
  | cons d rest ih =>
      obtain ⟨graph₁, hadd, hrest⟩ := foldlM_cons_eq_ok.mp h
      obtain ⟨hdecode, hnew⟩ := of_addGroup_eq_ok hbuilt hadd
      obtain ⟨graph₂, hadd', hbuilt'⟩ := hbuilt.addGroup_eq hdecode hnew
      cases hadd.symm.trans hadd'
      obtain ⟨hdecodes, hnodup, hother⟩ := ih hbuilt' hrest
      refine ⟨List.forall_mem_cons.mpr ⟨hdecode, hdecodes⟩, ?_,
        List.forall_mem_cons.mpr ⟨groupOf_eq_none.mp hnew, ?_⟩⟩
      · rw [List.map_cons, List.nodup_cons, List.mem_map]
        refine ⟨?_, hnodup⟩
        rintro ⟨e, he, hname⟩
        exact hother e he d (List.mem_append_right groups List.mem_cons_self) hname.symm
      · intro e he f hf
        exact hother e he f (List.mem_append_left [d] hf)

theorem sortable_iff (hreturns : ∀ d ∈ groups, d.Returns true) :
    Sortable groups ↔ (∀ d ∈ groups, (sortOption d).2 = none) ∧
      (groups.map fun d => (sortOption d).1.name).Nodup ∧
      ¬ ∃ d, TransGen (RefersTo sortOption groups) d d := by
  simp only [refersTo_eq_hasMember, sortOption_err]
  have hname : (fun d : GroupMapping env => (sortOption d).1.name) = groupName :=
    funext sortOption_name
  rw [hname]
  exact ⟨fun h => ⟨h.decodes, h.nodup, h.acyclic⟩, fun h => ⟨hreturns, h.1, h.2.1, h.2.2⟩⟩

theorem sorts_of_sorted {sorted : List (GroupMapping env)} (hperm : sorted.Perm groups)
    (hpairs : sorted.Pairwise fun d e => (sortOption e).1.name ∉ (sortOption d).1.proxies)
    (hself : ∀ d ∈ sorted, (sortOption d).1.name ∉ (sortOption d).1.proxies) :
    Sorts groups sorted := by
  refine ⟨hperm, ?_⟩
  simp only [sortOption_name, sortOption_proxies] at hpairs hself
  rintro a d b rfl e he hmember
  have hmem := hperm.mem_iff.mpr he
  rw [List.pairwise_append, List.pairwise_cons] at hpairs
  rw [List.mem_append, List.mem_cons] at hmem
  rcases hmem with ha | rfl | hb
  · exact ha
  · exact absurd hmember (hself e (List.mem_append_right a List.mem_cons_self))
  · exact absurd hmember (hpairs.2.1.1 e hb)

theorem takeWhile_returns (hreturns : ∀ d ∈ groups, d.Returns true) :
    (groups.takeWhile fun d => d.Returns false) = groups := by
  refine List.takeWhile_eq_self_iff.mpr fun d hd => ?_
  exact decide_eq_true ((d.returns_iff true false).mp (hreturns d hd))

/-- It accepts the groups exactly if they decode, have distinct names and do not refer to each
other in a circle, and panics only where the decoder does. -/
theorem sortGroups_spec (order : RangeOrder Str) (groups : List (GroupMapping env)) :
    (∃ sorted, sortGroups order groups = .ok sorted ∧ Sortable groups ∧ Sorts groups sorted) ∨
      (∃ err, sortGroups order groups = .error (.error err) ∧ ¬ Sortable groups) ∨
      sortGroups order groups = .error .panic ∧ ∃ d ∈ groups, ¬ d.Returns true := by
  by_cases hreturns : ∀ d ∈ groups, d.Returns true
  · have hreturns' : ∀ d ∈ groups, d.Returns false :=
      fun d hd => (d.returns_iff true false).mp (hreturns d hd)
    rw [sortGroups, takeWhile_returns hreturns]
    cases hbuild : buildGraph sortOption groups with
    | error err =>
        refine Or.inr (Or.inl ⟨_, rfl, fun hsortable => ?_⟩)
        obtain ⟨hdecodes, hnodup, -⟩ := (sortable_iff hreturns).mp hsortable
        obtain ⟨graph, hok, -⟩ := buildGraph_built hdecodes hnodup
        rw [hbuild] at hok
        cases hok
    | ok graph =>
        simp only [if_pos hreturns']
        obtain ⟨hdecodes, hnodup, -⟩ := of_addGroups_eq_ok Built.empty hbuild
        by_cases hcycle : ∃ d, TransGen (RefersTo sortOption groups) d d
        · obtain ⟨r, loopElements, hr, herr, -⟩ :=
            proxyGroupsDagSort_loop hdecodes hnodup hcycle order
          rw [hr]
          simp only [herr]
          exact Or.inr (Or.inl
            ⟨_, rfl, fun hsortable => ((sortable_iff hreturns).mp hsortable).2.2 hcycle⟩)
        · obtain ⟨graph', left, sorted, hbuild', hloop, hleft⟩ := sort_spec hdecodes hnodup order
          have hempty := (hleft.empty_iff hnodup).mpr hcycle
          have hresult : proxyGroupsDagSort sortOption order groups = some ⟨none, sorted⟩ := by
            rw [proxyGroupsDagSort, hbuild']
            simp only [hloop, if_pos hempty]
          obtain ⟨hperm, hpairs, hself⟩ := hleft.sorted hempty
          rw [hresult]
          exact Or.inl ⟨sorted, rfl, (sortable_iff hreturns).mpr ⟨hdecodes, hnodup, hcycle⟩,
            sorts_of_sorted hperm hpairs hself⟩
  · have hnot : ¬ ∀ d ∈ groups, d.Returns false :=
      fun h => hreturns fun d hd => (d.returns_iff false true).mp (h d hd)
    rw [sortGroups]
    cases buildGraph sortOption (groups.takeWhile fun d => d.Returns false) with
    | error err => exact Or.inr (Or.inl ⟨_, rfl, fun hsortable => hreturns hsortable.returns⟩)
    | ok graph =>
        refine Or.inr (Or.inr ⟨if_neg hnot, ?_⟩)
        simpa only [not_forall, exists_prop] using hreturns

theorem of_sortGroups_eq_ok {order : RangeOrder Str} {sorted : List (GroupMapping env)}
    (h : sortGroups order groups = .ok sorted) : Sortable groups ∧ Sorts groups sorted := by
  obtain ⟨sorted', h', hspec⟩ | ⟨err, h', -⟩ | ⟨h', -⟩ := sortGroups_spec order groups
  · cases h.symm.trans h'
    exact hspec
  · cases h.symm.trans h'
  · cases h.symm.trans h'

theorem Sortable.exists_sorts (hsortable : Sortable groups) (order : RangeOrder Str) :
    ∃ sorted, sortGroups order groups = .ok sorted ∧ Sorts groups sorted := by
  obtain ⟨sorted, h, -, hsorts⟩ | ⟨err, -, hno⟩ | ⟨-, d, hd, hno⟩ := sortGroups_spec order groups
  · exact ⟨sorted, h, hsorts⟩
  · exact absurd hsortable hno
  · exact absurd (hsortable.returns d hd) hno

theorem sortGroups_ne_panic (hreturns : ∀ d ∈ groups, d.Returns true) (order : RangeOrder Str) :
    sortGroups order groups ≠ .error .panic := by
  intro h
  obtain ⟨sorted, h', -⟩ | ⟨err, h', -⟩ | ⟨-, d, hd, hno⟩ := sortGroups_spec order groups
  · cases h.symm.trans h'
  · cases h.symm.trans h'
  · exact hno (hreturns d hd)

end Sorting

/-! ## The providers -/

section Loading

variable {env : Env} {φ β μ σ : Type} {out : Outside φ β μ (Outbound σ)}
  {cfg : RawConfig env μ} {order : RangeOrders} {fs files : φ}
  {loaded : List (Str × ProxyProvider (Proxy σ))}

theorem parseProvider_fst {entry : Str × List (Str × Src)} {set : Str × ProxySet}
    (h : parseProvider out env entry = .ok set) : set.1 = entry.1 := by
  unfold parseProvider at h
  split at h
  · cases h
  · split at h
    · cases h
    · cases h
    · cases h
      rfl

theorem initialProvider_eq_ok {entry : Str × ProxySet} {x : Str × ProxyProvider (Proxy σ)} :
    initialProvider out fs entry = .ok (x, files) ↔
      ∃ pd, out.initialSet fs entry.2 = .ok (pd, files) ∧
        x = (entry.1, { pd with proxies := pd.proxies.map .outbound }) := by
  unfold initialProvider
  cases out.initialSet fs entry.2 with
  | error err => cases err <;> simp
  | ok r =>
      obtain ⟨pd, files'⟩ := r
      simp only [Except.ok.injEq, Prod.mk.injEq]
      constructor
      · rintro ⟨rfl, rfl⟩
        exact ⟨pd, ⟨rfl, rfl⟩, rfl⟩
      · rintro ⟨_, ⟨rfl, rfl⟩, rfl⟩
        exact ⟨rfl, rfl⟩

/-- The providers of the configuration, under their names, each with a proxy. -/
structure Loads (cfg : RawConfig env μ) (loaded : List (Str × ProxyProvider (Proxy σ))) : Prop where
  names : (loaded.map Prod.fst).Perm (cfg.proxyProvider.map Prod.fst)
  filled : ∀ x ∈ loaded, x.2.vehicleType ≠ .compatible ∧ x.2.proxies ≠ []

theorem loads_of_eq_ok (h : loadProviders out order cfg fs = .ok (loaded, files)) :
    Loads cfg loaded := by
  obtain ⟨sets, hsets, hloaded⟩ := bind_eq_ok.mp h
  have hnames : (order.initial.visit sets).map Prod.fst = loaded.map Prod.fst := by
    have hforall := forall₂_of_thread_eq_ok (R := fun set x => set.1 = x.1) (fun _ _ _ _ hx => by
      obtain ⟨pd, -, rfl⟩ := initialProvider_eq_ok.mp hx
      rfl) hloaded
    rwa [← List.forall₂_map_right_iff, ← List.forall₂_map_left_iff,
      List.forall₂_eq_eq_eq] at hforall
  have hfilled := forall₂_of_thread_eq_ok
    (R := fun _ x => x.2.vehicleType ≠ .compatible ∧ x.2.proxies ≠ []) (fun _ _ _ _ hx => by
      obtain ⟨pd, hpd, rfl⟩ := initialProvider_eq_ok.mp hx
      obtain ⟨-, htype, hne⟩ := Outside.initialSet_eq_ok hpd
      exact ⟨htype, fun hnil => hne (List.map_eq_nil_iff.mp hnil)⟩) hloaded
  refine ⟨?_, fun x hx => ?_⟩
  · rw [← hnames]
    refine ((order.initial.perm sets).map Prod.fst).trans ?_
    rw [map_of_mapM_eq_ok (fun _ _ h => parseProvider_fst h) hsets]
    exact (order.parse.perm cfg.proxyProvider).map Prod.fst
  · obtain ⟨set, -, hx⟩ := exists_of_forall₂ hfilled.flip hx
    exact hx

theorem lookup_eq_some_iff_mem {α : Type} {l : List (Str × α)} (hnodup : (l.map Prod.fst).Nodup)
    {name : Str} {a : α} : l.lookup name = some a ↔ (name, a) ∈ l := by
  induction l with
  | nil => simp
  | cons x l ih =>
      obtain ⟨k, b⟩ := x
      rw [List.map_cons, List.nodup_cons] at hnodup
      rw [List.lookup_cons, List.mem_cons, Prod.mk.injEq]
      by_cases hk : name = k
      · subst hk
        have hnot : (name, a) ∉ l := fun hmem => hnodup.1 (List.mem_map.mpr ⟨_, hmem, rfl⟩)
        simp [hnot, eq_comm]
      · rw [beq_false_of_ne hk, ← ih hnodup.2]
        simp [hk]

theorem Loads.lookup_eq_some (h : Loads cfg loaded) {name : Str} {pd : ProxyProvider (Proxy σ)} :
    loaded.lookup name = some pd ↔ (name, pd) ∈ loaded :=
  lookup_eq_some_iff_mem (h.names.nodup_iff.mpr cfg.nodup)

theorem Loads.isSome_lookup (h : Loads cfg loaded) (name : Str) :
    (loaded.lookup name).isSome ↔ name ∈ cfg.proxyProvider.map Prod.fst := by
  rw [← h.names.mem_iff, List.mem_map, Option.isSome_iff_exists]
  simp only [h.lookup_eq_some]
  constructor
  · rintro ⟨pd, hmem⟩
    exact ⟨(name, pd), hmem, rfl⟩
  · rintro ⟨⟨_, pd⟩, hmem, rfl⟩
    exact ⟨pd, hmem⟩

end Loading

/-! ## The groups -/

section Groups

variable {env : Env} {σ : Type} {base : NameMap (Proxy σ)}
  {loaded : NameMap (ProxyProvider (Proxy σ))} {done : List (GroupMapping env)}
  {s s' : NameMap (Proxy σ) × NameMap (ProxyProvider (Proxy σ))} {d : GroupMapping env}

/-- The maps hold this group under its name, made of what the maps hold. -/
def Holds (proxies : NameMap (Proxy σ)) (loaded : NameMap (ProxyProvider (Proxy σ)))
    (d : GroupMapping env) : Prop :=
  ∃ ps list group, Finds proxies (d.decode true).1.proxies ps ∧
    Uses loaded (d.decode true).1.use list ∧
    newGroup d.config (d.decode true).1 (ownProviders (d.decode true).1 ps ++ list) = .ok group ∧
    proxies (groupName d) = some group

structure Stage (base : NameMap (Proxy σ)) (loaded : NameMap (ProxyProvider (Proxy σ)))
    (done : List (GroupMapping env))
    (s : NameMap (Proxy σ) × NameMap (ProxyProvider (Proxy σ))) : Prop where
  domain : ∀ name, (s.1 name).isSome ↔ (base name).isSome ∨ name ∈ done.map groupName
  keeps_base : ∀ name p, base name = some p → s.1 name = some p
  holds : ∀ d ∈ done, Holds s.1 loaded d
  keeps_loaded : ∀ name pd, loaded name = some pd → s.2 name = some pd
  own : ∀ name pd, s.2 name = some pd → loaded name = some pd ∨
    pd.vehicleType = .compatible ∧ pd.proxies ≠ [] ∧ name ∈ done.map groupName

/-- The providers of the configuration, before the groups add to them. -/
def FromFiles (loaded : NameMap (ProxyProvider (Proxy σ))) : Prop :=
  ∀ name pd, loaded name = some pd → pd.vehicleType ≠ .compatible ∧ pd.proxies ≠ []

theorem Stage.provides (h : Stage base loaded done s) (hloaded : FromFiles loaded) :
    Provides s.2 fun name => (loaded name).isSome := by
  refine ⟨fun name => ?_, fun name pd hpd => ?_⟩
  · constructor
    · intro hsome
      obtain ⟨pd, hpd⟩ := Option.isSome_iff_exists.mp hsome
      exact ⟨pd, h.keeps_loaded name pd hpd, (hloaded name pd hpd).1⟩
    · rintro ⟨pd, hpd, htype⟩
      obtain hpd | ⟨hcompatible, -⟩ := h.own name pd hpd
      · rw [hpd]
        rfl
      · exact absurd hcompatible htype
  · obtain hpd | ⟨-, hne, -⟩ := h.own name pd hpd
    · exact (hloaded name pd hpd).2
    · exact hne

/-- A group that is still to be made has the name of a provider only if the configuration
has one of that name. -/
theorem Stage.free (h : Stage base loaded done s) {name : Str} (hname : s.1 name = none) :
    s.2 name = none ↔ ¬ (loaded name).isSome := by
  constructor
  · intro hnone hsome
    obtain ⟨pd, hpd⟩ := Option.isSome_iff_exists.mp hsome
    rw [h.keeps_loaded name pd hpd] at hnone
    cases hnone
  · intro hnone
    cases hpd : s.2 name with
    | none => rfl
    | some pd =>
        obtain hpd | ⟨-, -, hdone⟩ := h.own name pd hpd
        · rw [hpd] at hnone
          exact absurd rfl hnone
        · have hsome := (h.domain name).mpr (Or.inr hdone)
          rw [hname] at hsome
          cases hsome

theorem addGroup_eq_ok {entry : GroupMapping env × Nat} :
    addGroup s entry = .ok s' ↔ ∃ group, parseProxyGroup entry.1 s.1 s.2 = .ok (group, s'.2) ∧
      s.1 group.name = none ∧ s'.1 = Function.update s.1 group.name (some group) := by
  obtain ⟨proxies, providersMap⟩ := s'
  unfold addGroup
  cases parseProxyGroup entry.1 s.1 s.2 with
  | error err => cases err <;> simp
  | ok r =>
      obtain ⟨group, providersMap'⟩ := r
      simp only [Except.ok.injEq, Prod.mk.injEq]
      constructor
      · intro h
        split at h
        · cases h
        · rename_i hnone
          cases h
          exact ⟨group, ⟨rfl, rfl⟩, Option.not_isSome_iff_eq_none.mp hnone, rfl⟩
      · rintro ⟨_, ⟨rfl, rfl⟩, hnone, rfl⟩
        rw [hnone]
        rfl

def Extends (proxies proxies' : NameMap (Proxy σ)) : Prop :=
  ∀ name p, proxies name = some p → proxies' name = some p

theorem finds_mono {proxies proxies' : NameMap (Proxy σ)} (hext : Extends proxies proxies')
    {names : List Str} {ps : List (Proxy σ)} (h : Finds proxies names ps) : Finds proxies' names ps :=
  List.Forall₂.imp (fun name p hp => hext name p hp) h

theorem Holds.mono {proxies proxies' : NameMap (Proxy σ)} (hext : Extends proxies proxies')
    (h : Holds proxies loaded d) : Holds proxies' loaded d := by
  obtain ⟨ps, list, group, hfinds, huses, hgroup, hname⟩ := h
  exact ⟨ps, list, group, finds_mono hext hfinds, huses, hgroup, hext _ _ hname⟩

theorem extends_update {proxies : NameMap (Proxy σ)} {name : Str} (hname : proxies name = none)
    (p : Proxy σ) : Extends proxies (Function.update proxies name (some p)) := by
  intro other q hq
  have hne : other ≠ name := by
    rintro rfl
    rw [hname] at hq
    cases hq
  rw [Function.update_of_ne hne]
  exact hq

/-- The providers that a group uses come from the configuration. -/
theorem Stage.uses_loaded (h : Stage base loaded done s) {names : List Str}
    {list : List (ProxyProvider (Proxy σ))} (huses : Uses s.2 names list) :
    Uses loaded names list := by
  refine List.Forall₂.imp (fun name pd hpd => ⟨?_, hpd.2⟩) huses
  obtain hpd' | ⟨hcompatible, -⟩ := h.own name pd hpd.1
  · exact hpd'
  · exact absurd hcompatible hpd.2

theorem Stage.step {k : Nat} (h : Stage base loaded done s) (hadd : addGroup s (d, k) = .ok s') :
    s.1 (groupName d) = none ∧ Stage base loaded (done ++ [d]) s' := by
  obtain ⟨group, hparse, hfresh, hproxies⟩ := addGroup_eq_ok.mp hadd
  obtain ⟨ps, list, hmakes, hproviders⟩ := parseProxyGroup_eq_ok.mp hparse
  have hname : group.name = groupName d := newGroup_name hmakes.group
  rw [hname] at hfresh hproxies
  have hext : Extends s.1 s'.1 := by
    rw [hproxies]
    exact extends_update hfresh group
  have hat : s'.1 (groupName d) = some group := by rw [hproxies, Function.update_self]
  refine ⟨hfresh, ?_, ?_, ?_, ?_, ?_⟩
  · intro name
    rw [List.map_append, List.mem_append, ← or_assoc, ← h.domain name, hproxies]
    by_cases heq : name = groupName d
    · subst heq
      simp
    · rw [Function.update_of_ne heq]
      simp [heq]
  · intro name p hp
    exact hext name p (h.keeps_base name p hp)
  · intro e he
    obtain he | he := List.mem_append.mp he
    · exact (h.holds e he).mono hext
    · rw [List.mem_singleton.mp he]
      exact ⟨ps, list, group, finds_mono hext hmakes.finds, h.uses_loaded hmakes.uses, hmakes.group, hat⟩
  · intro name pd hpd
    have hold := h.keeps_loaded name pd hpd
    rw [hproviders, register]
    split
    · rename_i hown
      have hne : name ≠ groupName d := by
        rintro rfl
        rw [groupName, (hmakes.own hown.1 hown.2).1] at hold
        cases hold
      rw [← hold]
      exact Function.update_of_ne hne _ _
    · exact hold
  · intro name pd hpd
    have hdone : name ∈ done.map groupName → name ∈ (done ++ [d]).map groupName := by
      intro hmem
      rw [List.map_append]
      exact List.mem_append_left _ hmem
    have hkept : s.2 name = some pd → loaded name = some pd ∨
        pd.vehicleType = .compatible ∧ pd.proxies ≠ [] ∧ name ∈ (done ++ [d]).map groupName := by
      intro hpd
      obtain hpd | ⟨htype, hne, hmem⟩ := h.own name pd hpd
      · exact Or.inl hpd
      · exact Or.inr ⟨htype, hne, hdone hmem⟩
    rw [hproviders, register] at hpd
    split at hpd
    · rename_i hown
      by_cases heq : name = groupName d
      · subst heq
        have hpd' := (Function.update_self _ _ _).symm.trans hpd
        cases hpd'
        exact Or.inr ⟨rfl, hmakes.finds.ne_nil hown.1, by simp⟩
      · exact hkept ((Function.update_of_ne heq _ _).symm.trans hpd)
    · exact hkept hpd

/-- One turn of the loop, between the groups of `done` and the rest. -/
theorem Stage.exists_addGroup_iff (h : Stage base loaded done s) (hloaded : FromFiles loaded)
    (d : GroupMapping env) (k : Nat) :
    (∃ s', addGroup s (d, k) = .ok s') ↔ s.1 (groupName d) = none ∧
      Accepts (fun name => (s.1 name).isSome) (fun name => (loaded name).isSome) d := by
  constructor
  · rintro ⟨s', hadd⟩
    have hfresh := (h.step hadd).1
    obtain ⟨group, hparse, -⟩ := addGroup_eq_ok.mp hadd
    exact ⟨hfresh, (exists_parseProxyGroup_iff (h.provides hloaded) (h.free hfresh)).mp
      ⟨_, hparse⟩⟩
  · rintro ⟨hfresh, haccepts⟩
    obtain ⟨⟨group, providersMap⟩, hparse⟩ :=
      (exists_parseProxyGroup_iff (h.provides hloaded) (h.free hfresh)).mpr haccepts
    obtain ⟨ps, list, hmakes, -⟩ := parseProxyGroup_eq_ok.mp hparse
    have hname : group.name = groupName d := newGroup_name hmakes.group
    rw [← hname] at hfresh
    exact ⟨(_, providersMap), addGroup_eq_ok.mpr ⟨group, hparse, hfresh, rfl⟩⟩

/-- The names that a group may have in its list when the groups of `done` have been made. -/
def KnownAfter (base : NameMap (Proxy σ)) (done : List (GroupMapping env)) (name : Str) : Prop :=
  (base name).isSome ∨ name ∈ done.map groupName

/-- Each group of `rest` in turn finds its name free and everything it needs. -/
def AllAccepted (base : NameMap (Proxy σ)) (loaded : NameMap (ProxyProvider (Proxy σ)))
    (done rest : List (GroupMapping env)) : Prop :=
  ∀ a d b, rest = a ++ d :: b → ¬ KnownAfter base (done ++ a) (groupName d) ∧
    Accepts (KnownAfter base (done ++ a)) (fun name => (loaded name).isSome) d

theorem allAccepted_cons {rest : List (GroupMapping env)} :
    AllAccepted base loaded done (d :: rest) ↔
      (¬ KnownAfter base done (groupName d) ∧
        Accepts (KnownAfter base done) (fun name => (loaded name).isSome) d) ∧
      AllAccepted base loaded (done ++ [d]) rest := by
  constructor
  · intro h
    refine ⟨?_, fun a e b hsplit => ?_⟩
    · have hd := h [] d rest rfl
      rwa [List.append_nil] at hd
    · have he := h (d :: a) e b (by rw [hsplit]; rfl)
      rwa [List.append_cons] at he
  · rintro ⟨hd, hrest⟩ a e b hsplit
    cases a with
    | nil =>
        cases hsplit
        rwa [List.append_nil]
    | cons d' a =>
        cases hsplit
        rw [List.append_cons]
        exact hrest a e b rfl

theorem Stage.exists_foldlM_iff (h : Stage base loaded done s) (hloaded : FromFiles loaded)
    (rest : List (GroupMapping env)) (k : Nat) :
    (∃ s', (rest.zipIdx k).foldlM addGroup s = .ok s') ↔ AllAccepted base loaded done rest := by
  induction rest generalizing done s k with
  | nil =>
      refine iff_of_true ⟨s, rfl⟩ fun a d b hsplit => ?_
      simp at hsplit
  | cons d rest ih =>
      have hknown : (fun name => ((s.1 name).isSome : Prop)) = KnownAfter base done :=
        funext fun name => propext (h.domain name)
      have hturn := h.exists_addGroup_iff hloaded d k
      rw [hknown, ← Option.not_isSome_iff_eq_none, h.domain] at hturn
      rw [allAccepted_cons, List.zipIdx_cons]
      simp only [foldlM_cons_eq_ok]
      constructor
      · rintro ⟨s', s₁, hadd, hrun⟩
        exact ⟨hturn.mp ⟨s₁, hadd⟩, (ih (h.step hadd).2 (k + 1)).mp ⟨s', hrun⟩⟩
      · rintro ⟨hd, hrest⟩
        obtain ⟨s₁, hadd⟩ := hturn.mpr hd
        obtain ⟨s', hrun⟩ := (ih (h.step hadd).2 (k + 1)).mpr hrest
        exact ⟨s', s₁, hadd, hrun⟩

theorem Stage.run {entries : List (GroupMapping env × Nat)} (h : Stage base loaded done s)
    (hrun : entries.foldlM addGroup s = .ok s') :
    Stage base loaded (done ++ entries.map Prod.fst) s' := by
  induction entries generalizing done s with
  | nil =>
      cases hrun
      rwa [List.map_nil, List.append_nil]
  | cons entry entries ih =>
      obtain ⟨s₁, hadd, hrun⟩ := foldlM_cons_eq_ok.mp hrun
      rw [List.map_cons, List.append_cons]
      exact ih (h.step hadd).2 hrun

end Groups

/-! ## The whole function -/

section Whole

variable {env : Env} {φ β μ σ : Type} {out : Outside φ β μ (Outbound σ)}
  {cfg : RawConfig env μ} {order : RangeOrders} {fs files : φ} {r : Parsed φ σ}

/-- `proxyList`: the names in the order of the file. -/
def allNames (out : Outside φ β μ (Outbound σ)) (cfg : RawConfig env μ) : List Str :=
  [str "DIRECT", str "REJECT"] ++ (outbounds out cfg.proxy).map (·.name) ++
    cfg.proxyGroup.map groupName

/-- A configuration whose proxies and groups make sense, whatever their order. -/
structure WellFormed (out : Outside φ β μ (Outbound σ)) (cfg : RawConfig env μ) : Prop where
  parses : ∀ mapping ∈ cfg.proxy, ∃ o, out.parseProxy mapping = .ok o
  named : ∀ d ∈ cfg.proxyGroup, d.nameString.isSome
  nodup : (allNames out cfg).Nodup
  acyclic : ¬ ∃ d, TransGen (HasMember cfg.proxyGroup) d d
  groups : ∀ d ∈ cfg.proxyGroup,
    Accepts (· ∈ allNames out cfg) (· ∈ cfg.proxyProvider.map Prod.fst) d

def declared (out : Outside φ β μ (Outbound σ)) (cfg : RawConfig env μ) : NameMap (Proxy σ) :=
  declare builtin (outbounds out cfg.proxy)

theorem isSome_builtin (name : Str) :
    ((builtin : NameMap (Proxy σ)) name).isSome ↔ name ∈ [str "DIRECT", str "REJECT"] := by
  rw [builtin, List.mem_pair]
  by_cases hreject : name = str "REJECT"
  · subst hreject
    simp
  · rw [Function.update_of_ne hreject]
    by_cases hdirect : name = str "DIRECT"
    · subst hdirect
      simp
    · rw [Function.update_of_ne hdirect]
      simp [hreject, hdirect]

theorem isSome_declared (name : Str) : (declared out cfg name).isSome ↔
    name ∈ [str "DIRECT", str "REJECT"] ++ (outbounds out cfg.proxy).map (·.name) := by
  rw [declared, isSome_declare, isSome_builtin, List.mem_append]

theorem knownAfter_iff {done : List (GroupMapping env)} (hdone : done.Perm cfg.proxyGroup)
    (name : Str) : KnownAfter (declared out cfg) done name ↔ name ∈ allNames out cfg := by
  simp only [KnownAfter, isSome_declared, allNames, List.mem_append,
    (hdone.map groupName).mem_iff]

/-- The loop over the proxies starts from two names that are taken. -/
theorem nodup_append_iff {names : List Str} :
    ([str "DIRECT", str "REJECT"] ++ names).Nodup ↔
      names.Nodup ∧ ∀ name ∈ names, (builtin : NameMap (Proxy σ)) name = none := by
  have hpair : [str "DIRECT", str "REJECT"].Nodup := by decide
  simp only [← Option.not_isSome_iff_eq_none, isSome_builtin, List.nodup_append, hpair, true_and]
  refine and_congr_right fun _ => ⟨fun h name hname hpair => ?_, fun h a ha b hb hab => ?_⟩
  · exact h name hpair name hname rfl
  · subst hab
    exact h a hb ha

theorem nodup_allNames_iff : (allNames out cfg).Nodup ↔
    (((outbounds out cfg.proxy).map (·.name)).Nodup ∧
      ∀ name ∈ (outbounds out cfg.proxy).map (·.name),
        (builtin : NameMap (Proxy σ)) name = none) ∧
    (cfg.proxyGroup.map groupName).Nodup ∧
    ∀ d ∈ cfg.proxyGroup, ¬ (declared out cfg (groupName d)).isSome := by
  rw [allNames, List.nodup_append, nodup_append_iff]
  simp only [isSome_declared]
  refine and_congr_right fun _ => and_congr_right fun _ => ⟨fun h d hd hmem => ?_, fun h a ha b hb hab => ?_⟩
  · exact h _ hmem _ (List.mem_map_of_mem hd) rfl
  · subst hab
    obtain ⟨d, hd, rfl⟩ := List.mem_map.mp hb
    exact h d hd ha

theorem accepts_mono {known known' provided provided' : Str → Prop} {d : GroupMapping env}
    (hknown : ∀ name ∈ (d.decode true).1.proxies, known name → known' name)
    (hprovided : ∀ name, provided name ↔ provided' name) (h : Accepts known provided d) :
    Accepts known' provided' d := by
  refine ⟨h.complete, fun name hname => hknown name hname (h.proxies name hname),
    fun name hname => (hprovided name).mp (h.use name hname), ?_, h.type⟩
  rw [← hprovided]
  exact h.own

/-- In the order of the sort each group finds those in its list, so every group is accepted
if it would be accepted with all the names of the file. -/
theorem allAccepted_iff {sorted : List (GroupMapping env)}
    {loaded : List (Str × ProxyProvider (Proxy σ))} (hsorts : Sorts cfg.proxyGroup sorted)
    (hnodup : (cfg.proxyGroup.map groupName).Nodup) (hloaded : Loads cfg loaded) :
    AllAccepted (declared out cfg) (fun name => loaded.lookup name) [] sorted ↔
      (∀ d ∈ cfg.proxyGroup, ¬ (declared out cfg (groupName d)).isSome) ∧
      ∀ d ∈ cfg.proxyGroup,
        Accepts (· ∈ allNames out cfg) (· ∈ cfg.proxyProvider.map Prod.fst) d := by
  constructor
  · intro h
    have hat : ∀ d ∈ cfg.proxyGroup, ∃ a b, sorted = a ++ d :: b :=
      fun d hd => List.append_of_mem (hsorts.perm.mem_iff.mpr hd)
    constructor
    · intro d hd hdeclared
      obtain ⟨a, b, hsplit⟩ := hat d hd
      exact (h a d b hsplit).1 (Or.inl hdeclared)
    · intro d hd
      obtain ⟨a, b, hsplit⟩ := hat d hd
      refine accepts_mono (fun name _ hknown => ?_) hloaded.isSome_lookup (h a d b hsplit).2
      refine (knownAfter_iff hsorts.perm name).mp (hknown.imp_right fun hmem => ?_)
      rw [hsplit, List.map_append]
      exact List.mem_append_left _ hmem
  · rintro ⟨hfree, haccepts⟩ a d b hsplit
    have hd : d ∈ cfg.proxyGroup := by
      rw [← hsorts.perm.mem_iff, hsplit]
      exact List.mem_append_right a List.mem_cons_self
    have hnew : groupName d ∉ a.map groupName := by
      have hsorted := (hsorts.perm.map groupName).nodup_iff.mpr hnodup
      rw [hsplit, List.map_append, List.map_cons, List.nodup_append] at hsorted
      intro hmem
      exact hsorted.2.2 _ hmem _ List.mem_cons_self rfl
    refine ⟨not_or.mpr ⟨hfree d hd, hnew⟩, ?_⟩
    refine accepts_mono (fun name hname hknown => ?_) (fun name => (hloaded.isSome_lookup name).symm)
      (haccepts d hd)
    refine ((knownAfter_iff (.refl cfg.proxyGroup) name).mpr hknown).imp_right fun hmem => ?_
    obtain ⟨e, he, rfl⟩ := List.mem_map.mp hmem
    exact List.mem_map_of_mem (hsorts.before a d b hsplit e he hname)

theorem newGlobal_eq_ok {proxies : NameMap (Proxy σ)} {proxyList : List Str}
    (hsome : ∀ name ∈ proxyList, (proxies name).isSome) (hne : proxyList ≠ []) :
    ∃ ps p, Finds proxies proxyList ps ∧ ps.head? = some p ∧
      newGlobal proxies proxyList =
        .ok (⟨reservedName, .compatible, ps, noHealthCheck⟩,
          .group globalOption (.selector p) [⟨reservedName, .compatible, ps, noHealthCheck⟩]) := by
  obtain ⟨ps, hfinds⟩ := exists_finds_iff.mpr hsome
  have hps : ps ≠ [] := by
    rintro rfl
    exact hne (List.forall₂_nil_right_iff.mp hfinds)
  obtain ⟨p, rest, rfl⟩ := List.exists_cons_of_ne_nil hps
  refine ⟨p :: rest, p, hfinds, rfl, ?_⟩
  rw [newGlobal, mapM_eq_some.mpr hfinds]
  rfl

theorem Loads.fromFiles {loaded : List (Str × ProxyProvider (Proxy σ))} (h : Loads cfg loaded) :
    FromFiles fun name => loaded.lookup name :=
  fun _ _ hpd => h.filled _ (h.lookup_eq_some.mp hpd)

theorem stage_nil (base : NameMap (Proxy σ)) (loaded : NameMap (ProxyProvider (Proxy σ))) :
    Stage base loaded ([] : List (GroupMapping env)) (base, loaded) := by
  refine ⟨?_, fun _ _ h => h, ?_, fun _ _ h => h, fun _ _ h => Or.inl h⟩
  · simp
  · simp

/-- Under its name each group is made of what the map has under the names in its list, and
of the providers it uses. -/
structure Resolves (out : Outside φ β μ (Outbound σ)) (cfg : RawConfig env μ)
    (loaded : NameMap (ProxyProvider (Proxy σ))) (proxies : NameMap (Proxy σ)) : Prop where
  domain : ∀ name, (proxies name).isSome ↔ name ∈ allNames out cfg
  direct : proxies (str "DIRECT") = some .direct
  reject : proxies (str "REJECT") = some .reject
  outbound : ∀ o ∈ outbounds out cfg.proxy, proxies o.name = some (.outbound o)
  group : ∀ d ∈ cfg.proxyGroup, Holds proxies loaded d

/-- `GLOBAL` selects among these, the first to begin with. -/
def globalGroup (ps : List (Proxy σ)) (sedProxy : Proxy σ) : Proxy σ :=
  .group globalOption (.selector sedProxy) [⟨reservedName, .compatible, ps, noHealthCheck⟩]

theorem resolves_of_stage {sorted : List (GroupMapping env)}
    {loaded : List (Str × ProxyProvider (Proxy σ))}
    {s : NameMap (Proxy σ) × NameMap (ProxyProvider (Proxy σ))}
    (hnodup : (allNames out cfg).Nodup) (hperm : sorted.Perm cfg.proxyGroup)
    (hstage : Stage (declared out cfg) (fun name => loaded.lookup name) sorted s) :
    Resolves out cfg (fun name => loaded.lookup name) s.1 := by
  obtain ⟨⟨hnames, hfree⟩, -⟩ := nodup_allNames_iff.mp hnodup
  have hbuiltin : ∀ name p, (builtin : NameMap (Proxy σ)) name = some p → s.1 name = some p := by
    intro name p hp
    refine hstage.keeps_base name p ?_
    rw [declared, declare_of_notMem, hp]
    intro hmem
    rw [hfree name hmem] at hp
    cases hp
  refine ⟨fun name => ?_, hbuiltin _ _ rfl, hbuiltin _ _ rfl, fun o ho => ?_, fun d hd => ?_⟩
  · exact (hstage.domain name).trans (knownAfter_iff hperm name)
  · exact hstage.keeps_base _ _ (declare_of_mem hnames ho)
  · exact hstage.holds d (hperm.mem_iff.mpr hd)

theorem stage_of_run {loaded : List (Str × ProxyProvider (Proxy σ))}
    {entries : List (GroupMapping env × Nat)}
    {s : NameMap (Proxy σ) × NameMap (ProxyProvider (Proxy σ))}
    (hrun : entries.foldlM addGroup (declared out cfg, fun name => loaded.lookup name) = .ok s) :
    Stage (declared out cfg) (fun name => loaded.lookup name) (entries.map Prod.fst) s :=
  Stage.run (stage_nil _ _) hrun

/-- If all loops come to their end, the configuration makes sense. -/
theorem wellFormed_of_run {base : NameMap (Proxy σ) × List Str} {names : List Str}
    {groupsConfig : List (GroupMapping env)} {loaded : List (Str × ProxyProvider (Proxy σ))}
    {s : NameMap (Proxy σ) × NameMap (ProxyProvider (Proxy σ))}
    (hproxies : cfg.proxy.zipIdx.foldlM (addProxy out) (builtin, [str "DIRECT", str "REJECT"]) =
      .ok base)
    (hnames : cfg.proxyGroup.zipIdx.mapM readName = .ok names)
    (hsort : sortGroups order.sort cfg.proxyGroup = .ok groupsConfig)
    (hloaded : Loads cfg loaded)
    (hgroups : groupsConfig.zipIdx.foldlM addGroup (base.1, fun name => loaded.lookup name) =
      .ok s) :
    WellFormed out cfg ∧ Resolves out cfg (fun name => loaded.lookup name) s.1 ∧
      base.2 ++ names = allNames out cfg := by
  obtain ⟨hparses, hdistinct, hfree, rfl⟩ := foldlM_addProxy_eq_ok.mp hproxies
  obtain ⟨hnamed, rfl⟩ := mapM_readName_eq_ok.mp hnames
  obtain ⟨hsortable, hsorts⟩ := of_sortGroups_eq_ok hsort
  have hstart : Stage (declared out cfg) (fun name => loaded.lookup name)
      ([] : List (GroupMapping env)) (declared out cfg, fun name => loaded.lookup name) :=
    stage_nil _ _
  obtain ⟨hnew, haccepts⟩ := (allAccepted_iff hsorts hsortable.nodup hloaded).mp
    ((hstart.exists_foldlM_iff hloaded.fromFiles groupsConfig 0).mp ⟨s, hgroups⟩)
  have hnodup : (allNames out cfg).Nodup :=
    nodup_allNames_iff.mpr ⟨⟨hdistinct, hfree⟩, hsortable.nodup, hnew⟩
  have hstage := stage_of_run hgroups
  rw [List.zipIdx_map_fst] at hstage
  refine ⟨⟨hparses, hnamed, hnodup, hsortable.acyclic, haccepts⟩,
    resolves_of_stage hnodup hsorts.perm hstage, ?_⟩
  rw [map_nameString hsortable.returns hnamed]
  rfl

theorem WellFormed.sortable (h : WellFormed out cfg) : Sortable cfg.proxyGroup :=
  ⟨fun d hd => (h.groups d hd).complete.returns, fun d hd => (h.groups d hd).complete.decodes,
    (nodup_allNames_iff.mp h.nodup).2.1, h.acyclic⟩

theorem Resolves.newGlobal_eq_ok {loaded : NameMap (ProxyProvider (Proxy σ))}
    {proxies : NameMap (Proxy σ)} (h : Resolves out cfg loaded proxies) :
    ∃ ps sedProxy, Finds proxies (allNames out cfg) ps ∧ ps.head? = some sedProxy ∧
      newGlobal proxies (allNames out cfg) =
        .ok (⟨reservedName, .compatible, ps, noHealthCheck⟩, globalGroup ps sedProxy) :=
  Parse.newGlobal_eq_ok (fun name hname => (h.domain name).mpr hname) (by simp [allNames])

/-- The names begin with `DIRECT`, which is therefore what `GLOBAL` selects at first. -/
theorem Resolves.head_eq_direct {loaded : NameMap (ProxyProvider (Proxy σ))}
    {proxies : NameMap (Proxy σ)} {ps : List (Proxy σ)} {p : Proxy σ}
    (h : Resolves out cfg loaded proxies) (hfinds : Finds proxies (allNames out cfg) ps)
    (hhead : ps.head? = some p) : p = .direct := by
  obtain ⟨q, rest, hq, -, rfl⟩ := List.forall₂_cons_left_iff.mp hfinds
  cases hhead
  exact Option.some.inj (hq.symm.trans h.direct)

/-- What an accepted configuration is, and what is made of it. -/
theorem of_parseProxies_eq_ok (h : parseProxies out order cfg fs = .ok r) :
    WellFormed out cfg ∧ ∃ loaded proxies ps,
      loadProviders out order cfg fs = .ok (loaded, r.files) ∧
      Resolves out cfg (fun name => loaded.lookup name) proxies ∧
      Finds proxies (allNames out cfg) ps ∧
      r.proxies = Function.update proxies (str "GLOBAL") (some (globalGroup ps .direct)) := by
  obtain ⟨⟨base, proxyList⟩, hproxies, h⟩ := bind_eq_ok.mp h
  obtain ⟨groupNames, hnames, h⟩ := bind_eq_ok.mp h
  obtain ⟨groupsConfig, hsort, h⟩ := bind_eq_ok.mp h
  obtain ⟨⟨loaded, files⟩, hload, h⟩ := bind_eq_ok.mp h
  obtain ⟨⟨proxies, providersMap⟩, hgroups, h⟩ := bind_eq_ok.mp h
  obtain ⟨⟨pd, global⟩, hglobal, h⟩ := bind_eq_ok.mp h
  obtain ⟨hwellFormed, hresolves, hlist⟩ :=
    wellFormed_of_run hproxies hnames hsort (loads_of_eq_ok hload) hgroups
  obtain ⟨ps, sedProxy, hfinds, hhead, hglobal'⟩ := hresolves.newGlobal_eq_ok
  rw [hresolves.head_eq_direct hfinds hhead, ← hlist] at hglobal'
  cases hglobal.symm.trans hglobal'
  cases h
  exact ⟨hwellFormed, loaded, proxies, ps, hload, hresolves, hfinds, rfl⟩

theorem exists_of_wellFormed {loaded : List (Str × ProxyProvider (Proxy σ))}
    (h : WellFormed out cfg) (hload : loadProviders out order cfg fs = .ok (loaded, files)) :
    ∃ r, parseProxies out order cfg fs = .ok r := by
  obtain ⟨⟨hdistinct, hfree⟩, hnodup, hnew⟩ := nodup_allNames_iff.mp h.nodup
  have hloads := loads_of_eq_ok hload
  have hproxies : cfg.proxy.zipIdx.foldlM (addProxy out) (builtin, [str "DIRECT", str "REJECT"]) =
      .ok (declared out cfg, _) := foldlM_addProxy_eq_ok.mpr ⟨h.parses, hdistinct, hfree, rfl⟩
  have hnames : cfg.proxyGroup.zipIdx.mapM readName = .ok _ :=
    mapM_readName_eq_ok.mpr ⟨h.named, rfl⟩
  obtain ⟨sorted, hsorted, hsorts⟩ := h.sortable.exists_sorts order.sort
  have hstart : Stage (declared out cfg) (fun name => loaded.lookup name)
      ([] : List (GroupMapping env)) (declared out cfg, fun name => loaded.lookup name) :=
    stage_nil _ _
  obtain ⟨⟨proxies, providersMap⟩, hgroups⟩ :=
    (hstart.exists_foldlM_iff hloads.fromFiles sorted 0).mpr
      ((allAccepted_iff hsorts hnodup hloads).mpr ⟨hnew, h.groups⟩)
  obtain ⟨-, hresolves, hlist⟩ := wellFormed_of_run hproxies hnames hsorted hloads hgroups
  obtain ⟨ps, sedProxy, -, -, hglobal⟩ := hresolves.newGlobal_eq_ok
  rw [← hlist] at hglobal
  refine ⟨⟨Function.update proxies (str "GLOBAL") (some (globalGroup ps sedProxy)),
    Function.update providersMap reservedName
      (some ⟨reservedName, .compatible, ps, noHealthCheck⟩), files⟩, ?_⟩
  refine bind_eq_ok.mpr ⟨_, hproxies, bind_eq_ok.mpr ⟨_, hnames, ?_⟩⟩
  refine bind_eq_ok.mpr ⟨sorted, hsorted, bind_eq_ok.mpr ⟨_, hload, ?_⟩⟩
  refine bind_eq_ok.mpr ⟨(proxies, providersMap), hgroups, bind_eq_ok.mpr ⟨_, hglobal, ?_⟩⟩
  rfl

/-- What makes `ParseProxy` or a decoder panic: a proxy of the file, a group, a provider, or a
proxy in what a provider reads. -/
inductive PanicsIn (out : Outside φ β μ (Outbound σ)) (cfg : RawConfig env μ) : Prop where
  | proxy {mapping : μ} : mapping ∈ cfg.proxy → out.parseProxy mapping = .error .panic →
      PanicsIn out cfg
  | group {d : GroupMapping env} : d ∈ cfg.proxyGroup → decodeOption env true d.config = none →
      PanicsIn out cfg
  | provider {entry : Str × List (Str × Src)} : entry ∈ cfg.proxyProvider →
      decodeSchema env entry.2 = none → PanicsIn out cfg
  | content {entry : Str × List (Str × Src)} {set : Str × ProxySet} {fs : φ} {buf : β} :
      entry ∈ cfg.proxyProvider → parseProvider out env entry = .ok set →
      out.readFile fs set.2.vehicle.path = .ok buf ∨ out.read fs set.2.vehicle = .ok buf →
      out.PanicsOn buf → PanicsIn out cfg

theorem loadProviders_panic (h : loadProviders out order cfg fs = .error .panic) :
    PanicsIn out cfg := by
  obtain h | ⟨sets, hsets, h⟩ := bind_eq_error.mp h
  · obtain ⟨entry, hentry, h⟩ := exists_of_mapM_eq_error h
    refine .provider ((order.parse.perm _).mem_iff.mp hentry) ?_
    unfold parseProvider at h
    split at h
    · cases h
    · split at h
      · rename_i hpanic
        exact parseProxyProvider_panic hpanic
      · cases h
      · cases h
  · obtain ⟨set, hset, fs', h⟩ := exists_of_thread_eq_error h
    obtain ⟨entry, hentry, hparse⟩ :=
      (mem_of_mapM_eq_ok hsets).mp ((order.initial.perm sets).mem_iff.mp hset)
    unfold initialProvider at h
    split at h
    · rename_i hpanic
      obtain ⟨buf, hread, hbuf⟩ := Outside.initialSet_panic hpanic
      exact .content ((order.parse.perm _).mem_iff.mp hentry) hparse hread hbuf
    · cases h
    · cases h

theorem foldlM_addProxy_panic {s : NameMap (Proxy σ) × List Str}
    (h : cfg.proxy.zipIdx.foldlM (addProxy out) s = .error .panic) : PanicsIn out cfg := by
  obtain ⟨done, ⟨mapping, k⟩, rest, s', hsplit, -, h⟩ := exists_of_foldlM_eq_error h
  have hmem : (mapping, k) ∈ cfg.proxy.zipIdx := by
    rw [hsplit]
    exact List.mem_append_right _ List.mem_cons_self
  unfold addProxy at h
  split at h
  · rename_i hpanic
    exact .proxy (List.fst_mem_of_mem_zipIdx hmem) hpanic
  · cases h
  · split at h <;> cases h

theorem mapM_readName_ne_panic {entries : List (GroupMapping env × Nat)} :
    entries.mapM readName ≠ .error .panic := by
  intro h
  obtain ⟨entry, -, h⟩ := exists_of_mapM_eq_error h
  unfold readName at h
  split at h <;> cases h

/-- The providers have proxies, so no group looks for the first of none. -/
theorem foldlM_addGroup_ne_panic {sorted : List (GroupMapping env)}
    {loaded : List (Str × ProxyProvider (Proxy σ))} (hreturns : ∀ d ∈ sorted, d.Returns true)
    (hloads : Loads cfg loaded) :
    sorted.zipIdx.foldlM addGroup (declared out cfg, fun name => loaded.lookup name) ≠
      .error .panic := by
  intro h
  obtain ⟨done, entry, rest, s, hsplit, hdone, h⟩ := exists_of_foldlM_eq_error h
  have hmem : entry ∈ sorted.zipIdx := by
    rw [hsplit]
    exact List.mem_append_right _ List.mem_cons_self
  have hprovides := (stage_of_run hdone).provides hloads.fromFiles
  have hgroup := parseProxyGroup_ne_panic (hreturns _ (List.fst_mem_of_mem_zipIdx hmem)) s.1
    hprovides.noneEmpty
  unfold addGroup at h
  split at h
  · rename_i hpanic
    exact hgroup hpanic
  · cases h
  · split at h <;> cases h

theorem parseProxies_panic (h : parseProxies out order cfg fs = .error .panic) :
    PanicsIn out cfg := by
  by_cases hreturns : ∀ d ∈ cfg.proxyGroup, d.Returns true
  · obtain h | ⟨⟨base, proxyList⟩, hproxies, h⟩ := bind_eq_error.mp h
    · exact foldlM_addProxy_panic h
    obtain h | ⟨groupNames, hnames, h⟩ := bind_eq_error.mp h
    · exact absurd h mapM_readName_ne_panic
    obtain h | ⟨groupsConfig, hsort, h⟩ := bind_eq_error.mp h
    · exact absurd h (sortGroups_ne_panic hreturns order.sort)
    obtain h | ⟨⟨loaded, files⟩, hload, h⟩ := bind_eq_error.mp h
    · exact loadProviders_panic h
    have hloads := loads_of_eq_ok hload
    obtain hfail | ⟨⟨proxies, providersMap⟩, hgroups, h⟩ := bind_eq_error.mp h
    · obtain ⟨-, -, -, hbase⟩ := foldlM_addProxy_eq_ok.mp hproxies
      cases hbase
      have hperm := (of_sortGroups_eq_ok hsort).2.perm
      exact absurd hfail
        (foldlM_addGroup_ne_panic (fun d hd => hreturns d (hperm.mem_iff.mp hd)) hloads)
    obtain h | ⟨⟨pd, global⟩, -, h⟩ := bind_eq_error.mp h
    · obtain ⟨-, hresolves, hlist⟩ := wellFormed_of_run hproxies hnames hsort hloads hgroups
      obtain ⟨ps, sedProxy, -, -, hglobal⟩ := hresolves.newGlobal_eq_ok
      rw [← hlist] at hglobal
      cases h.symm.trans hglobal
    · cases h
  · obtain ⟨d, hd, hno⟩ : ∃ d ∈ cfg.proxyGroup, ¬ d.Returns true := by
      simpa only [not_forall, exists_prop] using hreturns
    exact .group hd (Option.not_isSome_iff_eq_none.mp hno)

structure Reordered (cfg cfg' : RawConfig env μ) : Prop where
  proxy : cfg.proxy.Perm cfg'.proxy
  proxyGroup : cfg.proxyGroup.Perm cfg'.proxyGroup
  proxyProvider : cfg.proxyProvider.Perm cfg'.proxyProvider

/-- No provider writes to the file of another one. -/
def Separate (out : Outside φ β μ (Outbound σ)) (cfg : RawConfig env μ) : Prop :=
  ∀ e ∈ cfg.proxyProvider, ∀ e' ∈ cfg.proxyProvider, e.1 ≠ e'.1 → ∀ set set',
    parseProvider out env e = .ok set → parseProvider out env e' = .ok set' →
    set.2.vehicle.type ≠ .file → out.Untouched set.2.vehicle.path set'.2.vehicle.path

section Separate

/-- The configuration has a provider of this name, and this is what it is loaded as when it is
loaded first. -/
def LoadedAs (out : Outside φ β μ (Outbound σ)) (cfg : RawConfig env μ) (fs : φ) (name : Str)
    (pd : ProxyProvider (Proxy σ)) : Prop :=
  ∃ entry ∈ cfg.proxyProvider, ∃ set files, parseProvider out env entry = .ok set ∧
    initialProvider out fs set = .ok ((name, pd), files)

theorem independent_initialProvider : Independent (initialProvider out)
    (fun set => out.SameAt set.2.vehicle.path)
    (fun set set' => set.2.vehicle.type ≠ .file →
      out.Untouched set.2.vehicle.path set'.2.vehicle.path) where
  refl _ _ := Outside.SameAt.refl _ _ _
  trans _ _ _ _ h h' := h.trans h'
  symm _ _ _ h := h.symm
  result set s s' x t h hx := by
    obtain ⟨pd, hpd, rfl⟩ := initialProvider_eq_ok.mp hx
    obtain ⟨files, hfiles⟩ := h.initialSet hpd
    exact ⟨files, initialProvider_eq_ok.mpr ⟨pd, hfiles, rfl⟩⟩
  leaves set set' s x t h hx := by
    obtain ⟨pd, hpd, -⟩ := initialProvider_eq_ok.mp hx
    exact Outside.sameAt_of_initialSet h hpd

variable {sets : List (Str × ProxySet)}

theorem Separate.pairwise (h : Separate out cfg)
    (hsets : (order.parse.visit cfg.proxyProvider).mapM (parseProvider out env) = .ok sets) :
    (order.initial.visit sets).Pairwise fun set set' => set.2.vehicle.type ≠ .file →
      out.Untouched set.2.vehicle.path set'.2.vehicle.path := by
  have hnodup : ((order.initial.visit sets).map Prod.fst).Nodup := by
    rw [((order.initial.perm sets).map Prod.fst).nodup_iff,
      map_of_mapM_eq_ok (fun _ _ h => parseProvider_fst h) hsets,
      ((order.parse.perm cfg.proxyProvider).map Prod.fst).nodup_iff]
    exact cfg.nodup
  refine (List.pairwise_map.mp hnodup).imp_of_mem fun {set set'} hset hset' hne => ?_
  obtain ⟨e, he, hparse⟩ := (mem_of_mapM_eq_ok hsets).mp ((order.initial.perm sets).mem_iff.mp hset)
  obtain ⟨e', he', hparse'⟩ :=
    (mem_of_mapM_eq_ok hsets).mp ((order.initial.perm sets).mem_iff.mp hset')
  rw [(order.parse.perm _).mem_iff] at he he'
  refine h e he e' he' ?_ set set' hparse hparse'
  rwa [← parseProvider_fst hparse, ← parseProvider_fst hparse']

/-- Providers with files of their own are loaded as if each were the first. -/
theorem Separate.forall₂_loaded (h : Separate out cfg)
    {loaded : List (Str × ProxyProvider (Proxy σ))}
    (hload : loadProviders out order cfg fs = .ok (loaded, files)) :
    ∃ sets, (order.parse.visit cfg.proxyProvider).mapM (parseProvider out env) = .ok sets ∧
      List.Forall₂ (fun set x => ∃ files, initialProvider out fs set = .ok (x, files))
        (order.initial.visit sets) loaded := by
  obtain ⟨sets, hsets, hloaded⟩ := bind_eq_ok.mp hload
  exact ⟨sets, hsets, independent_initialProvider.forall₂_of_thread (h.pairwise hsets)
    (fun set _ => Outside.SameAt.refl _ _ _) hloaded⟩

theorem Separate.lookup_eq_some (h : Separate out cfg)
    {loaded : List (Str × ProxyProvider (Proxy σ))}
    (hload : loadProviders out order cfg fs = .ok (loaded, files)) {name : Str}
    {pd : ProxyProvider (Proxy σ)} :
    loaded.lookup name = some pd ↔ LoadedAs out cfg fs name pd := by
  rw [(loads_of_eq_ok hload).lookup_eq_some]
  obtain ⟨sets, hsets, hforall⟩ := h.forall₂_loaded hload
  have hmem : ∀ set, set ∈ order.initial.visit sets ↔
      ∃ entry ∈ cfg.proxyProvider, parseProvider out env entry = .ok set := by
    intro set
    rw [(order.initial.perm sets).mem_iff, mem_of_mapM_eq_ok hsets]
    simp only [(order.parse.perm _).mem_iff]
  constructor
  · intro hx
    obtain ⟨set, hset, files', hinitial⟩ := exists_of_forall₂ hforall.flip hx
    obtain ⟨entry, hentry, hparse⟩ := (hmem set).mp hset
    exact ⟨entry, hentry, set, files', hparse, hinitial⟩
  · rintro ⟨entry, hentry, set, files', hparse, hinitial⟩
    obtain ⟨x, hx, files'', hinitial'⟩ :=
      exists_of_forall₂ hforall ((hmem set).mpr ⟨entry, hentry, hparse⟩)
    cases hinitial.symm.trans hinitial'
    exact hx

theorem loadedAs_of_eq_ok (h : Separate out cfg) {loaded : List (Str × ProxyProvider (Proxy σ))}
    (hload : loadProviders out order cfg fs = .ok (loaded, files)) :
    ∀ entry ∈ cfg.proxyProvider, ∃ set x files', parseProvider out env entry = .ok set ∧
      initialProvider out fs set = .ok (x, files') := by
  intro entry hentry
  obtain ⟨sets, hsets, hforall⟩ := h.forall₂_loaded hload
  have hentry' := (order.parse.perm _).mem_iff.mpr hentry
  obtain ⟨set, hparse⟩ := exists_mapM_eq_ok.mp ⟨sets, hsets⟩ entry hentry'
  have hset := (mem_of_mapM_eq_ok hsets).mpr ⟨entry, hentry', hparse⟩
  obtain ⟨x, -, files', hinitial⟩ :=
    exists_of_forall₂ hforall ((order.initial.perm sets).mem_iff.mpr hset)
  exact ⟨set, x, files', hparse, hinitial⟩

theorem exists_loadProviders (order : RangeOrders) (h : Separate out cfg)
    (hall : ∀ entry ∈ cfg.proxyProvider, ∃ set x files, parseProvider out env entry = .ok set ∧
      initialProvider out fs set = .ok (x, files)) :
    ∃ loaded files, loadProviders out order cfg fs = .ok (loaded, files) := by
  have hparses : ∀ entry ∈ order.parse.visit cfg.proxyProvider,
      ∃ set, parseProvider out env entry = .ok set := by
    intro entry hentry
    obtain ⟨set, -, -, hset, -⟩ := hall entry ((order.parse.perm _).mem_iff.mp hentry)
    exact ⟨set, hset⟩
  obtain ⟨sets, hsets⟩ := exists_mapM_eq_ok.mpr hparses
  obtain ⟨loaded, files, hloaded⟩ := independent_initialProvider.exists_thread (h.pairwise hsets)
    (fun set _ => Outside.SameAt.refl _ _ fs) (fun set hset => by
      obtain ⟨entry, hentry, hparse⟩ :=
        (mem_of_mapM_eq_ok hsets).mp ((order.initial.perm sets).mem_iff.mp hset)
      obtain ⟨set', x, files, hparse', hinitial⟩ :=
        hall entry ((order.parse.perm _).mem_iff.mp hentry)
      cases hparse.symm.trans hparse'
      exact ⟨x, files, hinitial⟩)
  exact ⟨loaded, files, bind_eq_ok.mpr ⟨sets, hsets, hloaded⟩⟩

end Separate

variable {cfg' : RawConfig env μ}

theorem Reordered.outbounds_perm (h : Reordered cfg cfg') :
    (outbounds out cfg.proxy).Perm (outbounds out cfg'.proxy) := h.proxy.filterMap _

theorem Reordered.allNames_perm (h : Reordered cfg cfg') :
    (allNames out cfg).Perm (allNames out cfg') :=
  ((h.outbounds_perm.map _).append_left _).append (h.proxyGroup.map _)

theorem Reordered.hasMember_eq (h : Reordered cfg cfg') :
    HasMember cfg.proxyGroup = HasMember cfg'.proxyGroup := by
  funext d e
  rw [HasMember, HasMember, h.proxyGroup.mem_iff, h.proxyGroup.mem_iff]

theorem Reordered.wellFormed (h : Reordered cfg cfg') (hw : WellFormed out cfg) :
    WellFormed out cfg' := by
  refine ⟨fun m hm => hw.parses m (h.proxy.mem_iff.mpr hm),
    fun d hd => hw.named d (h.proxyGroup.mem_iff.mpr hd), h.allNames_perm.nodup_iff.mp hw.nodup, ?_,
    fun d hd => ?_⟩
  · rw [← h.hasMember_eq]
    exact hw.acyclic
  · exact accepts_mono (fun name _ hname => h.allNames_perm.mem_iff.mp hname)
      (fun name => (h.proxyProvider.map Prod.fst).mem_iff)
      (hw.groups d (h.proxyGroup.mem_iff.mpr hd))

theorem Reordered.separate (h : Reordered cfg cfg') (hsep : Separate out cfg) :
    Separate out cfg' := by
  intro e he e' he'
  exact hsep e (h.proxyProvider.mem_iff.mpr he) e' (h.proxyProvider.mem_iff.mpr he')

theorem Reordered.loadedAs_iff (h : Reordered cfg cfg') {name : Str}
    {pd : ProxyProvider (Proxy σ)} :
    LoadedAs out cfg fs name pd ↔ LoadedAs out cfg' fs name pd := by
  simp only [LoadedAs, h.proxyProvider.mem_iff]

/-- A map that resolves a configuration resolves it in any order. -/
theorem Reordered.resolves (h : Reordered cfg cfg') {loaded : NameMap (ProxyProvider (Proxy σ))}
    {proxies : NameMap (Proxy σ)} (hr : Resolves out cfg loaded proxies) :
    Resolves out cfg' loaded proxies :=
  ⟨fun name => (hr.domain name).trans h.allNames_perm.mem_iff, hr.direct, hr.reject,
    fun o ho => hr.outbound o (h.outbounds_perm.mem_iff.mpr ho),
    fun d hd => hr.group d (h.proxyGroup.mem_iff.mpr hd)⟩

/-- Two lists that stand for the same names are the same. -/
theorem forall₂_unique {α : Type} {R S : Str → α → Prop} {names : List Str} {l l' : List α}
    (hunique : ∀ name ∈ names, ∀ x y, R name x → S name y → x = y)
    (h : List.Forall₂ R names l) (h' : List.Forall₂ S names l') : l = l' := by
  induction h generalizing l' with
  | nil => exact (List.forall₂_nil_left_iff.mp h').symm
  | cons hx _ ih =>
      obtain ⟨y, l'', hy, hl, rfl⟩ := List.forall₂_cons_left_iff.mp h'
      rw [hunique _ List.mem_cons_self _ _ hx hy,
        ih (fun name hname => hunique name (List.mem_cons_of_mem _ hname)) hl]

theorem finds_eq_filterMap {proxies : NameMap (Proxy σ)} {names : List Str} {ps : List (Proxy σ)}
    (h : Finds proxies names ps) : ps = names.filterMap proxies := by
  rw [Finds] at h
  induction h with
  | nil => rfl
  | cons hp _ ih => rw [List.filterMap_cons_some hp, ih]

/-- A configuration without circles can be resolved in one way only. -/
theorem Resolves.unique {loaded : NameMap (ProxyProvider (Proxy σ))}
    {proxies proxies' : NameMap (Proxy σ)} (hw : WellFormed out cfg)
    (h : Resolves out cfg loaded proxies) (h' : Resolves out cfg loaded proxies') :
    proxies = proxies' := by
  have hdeclared : ∀ name ∈ [str "DIRECT", str "REJECT"] ++ (outbounds out cfg.proxy).map (·.name),
      proxies name = proxies' name := by
    intro name hname
    obtain hname | hname := List.mem_append.mp hname
    · obtain rfl | rfl := List.mem_pair.mp hname
      · rw [h.direct, h'.direct]
      · rw [h.reject, h'.reject]
    · obtain ⟨o, ho, rfl⟩ := List.mem_map.mp hname
      rw [h.outbound o ho, h'.outbound o ho]
  obtain ⟨sorted, -, hsorts⟩ :=
    hw.sortable.exists_sorts ⟨fun _ names => names, fun _ names => .refl names⟩
  have hgroups : ∀ a b, sorted = a ++ b → ∀ d ∈ a,
      proxies (groupName d) = proxies' (groupName d) := by
    intro a
    induction a using List.reverseRecOn with
    | nil => simp
    | append_singleton a d ih =>
        intro b hsplit e he
        rw [List.append_assoc] at hsplit
        obtain he | he := List.mem_append.mp he
        · exact ih _ hsplit e he
        · rw [List.mem_singleton.mp he]
          have hd : d ∈ cfg.proxyGroup := by
            rw [← hsorts.perm.mem_iff, hsplit]
            simp
          obtain ⟨ps, list, group, hfinds, huse, hgroup, hname⟩ := h.group d hd
          obtain ⟨ps', list', group', hfinds', huse', hgroup', hname'⟩ := h'.group d hd
          have hmembers : ∀ name ∈ (d.decode true).1.proxies, proxies name = proxies' name := by
            intro name hmem
            have hin := (hw.groups d hd).proxies name hmem
            rw [allNames, List.mem_append] at hin
            obtain hin | hin := hin
            · exact hdeclared name hin
            · obtain ⟨f, hf, rfl⟩ := List.mem_map.mp hin
              exact ih _ hsplit f (hsorts.before a d b hsplit f hf hmem)
          have hps : ps = ps' := by
            refine forall₂_unique (fun name hmem x y hx hy => ?_) hfinds hfinds'
            rw [hmembers name hmem, hy] at hx
            exact (Option.some.inj hx).symm
          have hlist : list = list' := by
            refine forall₂_unique (fun name _ x y hx hy => ?_) huse huse'
            exact Option.some.inj (hx.1.symm.trans hy.1)
          rw [hps, hlist, hgroup'] at hgroup
          cases hgroup
          rw [hname, hname']
  funext name
  by_cases hname : name ∈ allNames out cfg
  · rw [allNames, List.mem_append] at hname
    obtain hname | hname := hname
    · exact hdeclared name hname
    · obtain ⟨d, hd, rfl⟩ := List.mem_map.mp hname
      exact hgroups sorted [] (List.append_nil _).symm d (hsorts.perm.mem_iff.mpr hd)
  · have hnone := mt (h.domain name).mp hname
    have hnone' := mt (h'.domain name).mp hname
    rw [Option.not_isSome_iff_eq_none] at hnone hnone'
    rw [hnone, hnone']

/-- A configuration whose providers have files of their own and that is accepted is accepted with
its parts in any other order, and under any order of the loops over maps, if the files and the
servers have the same for it. Every name then stands for the same proxy, except that `GLOBAL`
lists the same proxies in the order of its file. -/
theorem parseProxies_reordered (order' : RangeOrders) (h : Reordered cfg cfg')
    (hsep : Separate out cfg) (hr : parseProxies out order cfg fs = .ok r) :
    ∃ r', parseProxies out order' cfg' fs = .ok r' ∧
      (∀ name, name ≠ str "GLOBAL" → r'.proxies name = r.proxies name) ∧
      ∃ ps ps', ps'.Perm ps ∧ r.proxies (str "GLOBAL") = some (globalGroup ps .direct) ∧
        r'.proxies (str "GLOBAL") = some (globalGroup ps' .direct) := by
  obtain ⟨hw, loaded, proxies, ps, hload, hresolves, hfinds, heq⟩ := of_parseProxies_eq_ok hr
  have hall := loadedAs_of_eq_ok hsep hload
  obtain ⟨loaded', files', hload'⟩ := exists_loadProviders order' (h.separate hsep)
    fun entry hentry => hall entry (h.proxyProvider.mem_iff.mpr hentry)
  obtain ⟨r', hr'⟩ := exists_of_wellFormed (h.wellFormed hw) hload'
  obtain ⟨hw', loaded'', proxies', ps', hload'', hresolves', hfinds', heq'⟩ :=
    of_parseProxies_eq_ok hr'
  have hlookup : (fun name => loaded.lookup name) = fun name => loaded''.lookup name := by
    funext name
    refine Option.ext fun pd => ?_
    rw [hsep.lookup_eq_some hload, h.loadedAs_iff, ← (h.separate hsep).lookup_eq_some hload'']
  rw [hlookup] at hresolves
  have hsame : proxies = proxies' := Resolves.unique hw' (h.resolves hresolves) hresolves'
  subst hsame
  refine ⟨r', hr', fun name hname => ?_, ps, ps', ?_, ?_, ?_⟩
  · rw [heq, heq', Function.update_of_ne hname, Function.update_of_ne hname]
  · rw [finds_eq_filterMap hfinds, finds_eq_filterMap hfinds']
    exact h.allNames_perm.symm.filterMap _
  · rw [heq, Function.update_self]
  · rw [heq', Function.update_self]

end Whole

/-! ## A small file -/

/-- Proxies are given by their name, and every provider has the same one. A file is there or not. -/
def namesOnly : Outside (Str → Bool) Unit Str (Outbound Unit) where
  resolve path := path
  stat fs path := fs path
  readFile fs path := if fs path then .ok () else .error (str "no such file or directory")
  safeWrite fs path _ := .ok (Function.update fs path true)
  get _ := .ok ()
  unmarshal _ := .ok (some [str "remote"])
  parseProxy name := .ok ⟨name, ()⟩

def asListed : RangeOrders :=
  ⟨⟨fun _ names => names, fun _ names => .refl names⟩, ⟨id, .refl⟩, ⟨id, .refl⟩⟩

/-- `- {name: auto, type: select, proxies: [chain, node]}` -/
def autoGroup : GroupMapping (plainEnv true) where
  config := [(str "name", .str (str "auto")), (str "type", .str (str "select")),
    (str "proxies", .list [.str (str "chain"), .str (str "node")])]

/-- `- {name: chain, type: relay, proxies: [node], use: [server, local]}` -/
def chainGroup : GroupMapping (plainEnv true) where
  config := [(str "name", .str (str "chain")), (str "type", .str (str "relay")),
    (str "proxies", .list [.str (str "node")]),
    (str "use", .list [.str (str "server"), .str (str "local")])]

/-- `server: {type: http, path: a.yaml}` -/
def serverProvider : Str × List (Str × Src) :=
  (str "server", [(str "type", .str (str "http")), (str "path", .str (str "a.yaml"))])

/-- `local: {type: file, path: <path>}` -/
def localProvider (path : String) : Str × List (Str × Src) :=
  (str "local", [(str "type", .str (str "file")), (str "path", .str (str path))])

/-- `b.yaml` is there, `a.yaml` is not. -/
def onlyB : Str → Bool := fun path => path = str "b.yaml"

def smallFile (groups : List (GroupMapping (plainEnv true)))
    (providers : List (Str × List (Str × Src))) (hnodup : (providers.map Prod.fst).Nodup) :
    RawConfig (plainEnv true) Str :=
  ⟨[str "node"], groups, providers, hnodup⟩

def chainFirst : RawConfig (plainEnv true) Str :=
  smallFile [chainGroup, autoGroup] [serverProvider, localProvider "b.yaml"] (by decide)

def chainLast : RawConfig (plainEnv true) Str :=
  smallFile [autoGroup, chainGroup] [localProvider "b.yaml", serverProvider] (by decide)

theorem untouched_namesOnly {written path : Str} (h : path ≠ written) :
    namesOnly.Untouched written path := by
  intro fs buf fs' hwrite
  cases hwrite
  have hpath : Function.update fs written true path = fs path := Function.update_of_ne h true fs
  refine ⟨hpath.symm, ?_, fun _ => ⟨fun _ => ⟨_, rfl⟩, fun _ => ⟨_, rfl⟩⟩⟩
  simp only [namesOnly, hpath]

theorem separate_chainFirst : Separate namesOnly chainFirst := by
  have hserver : parseProvider namesOnly (plainEnv true) serverProvider =
      .ok (str "server", ⟨str "server", .http [] (str "a.yaml"), ⟨[], 0, true⟩⟩) := rfl
  have hlocal : parseProvider namesOnly (plainEnv true) (localProvider "b.yaml") =
      .ok (str "local", ⟨str "local", .file (str "b.yaml"), ⟨[], 0, true⟩⟩) := rfl
  have hmem : ∀ e ∈ chainFirst.proxyProvider, e = serverProvider ∨ e = localProvider "b.yaml" := by
    intro e he
    simpa [chainFirst, smallFile] using he
  intro e he e' he' hne set set' hset hset' htype
  obtain rfl | rfl := hmem e he
  · obtain rfl | rfl := hmem e' he'
    · exact absurd rfl hne
    · cases hserver.symm.trans hset
      cases hlocal.symm.trans hset'
      exact untouched_namesOnly (by decide)
  · cases hlocal.symm.trans hset
    exact absurd rfl htype

/-- A group may come before one that is in its list, and a provider before another one. -/
theorem parseProxies_reordered_small :
    ∃ r r', parseProxies namesOnly asListed chainFirst onlyB = .ok r ∧
      parseProxies namesOnly asListed chainLast onlyB = .ok r' ∧
      r'.proxies (str "auto") = r.proxies (str "auto") := by
  have hok : ∃ r, parseProxies namesOnly asListed chainFirst onlyB = .ok r := ⟨_, rfl⟩
  obtain ⟨r, hr⟩ := hok
  have hswap : Reordered chainFirst chainLast := ⟨.refl _, .swap _ _ _, .swap _ _ _⟩
  obtain ⟨r', hr', hsame, -⟩ := parseProxies_reordered asListed hswap separate_chainFirst hr
  exact ⟨r, r', hr, hr', hsame _ (by decide)⟩

/-- The group `- {name: auto, type: select, proxies: [~]}` makes the decoder panic. -/
example : parseProxies namesOnly asListed (smallFile [⟨nullProxy⟩] [] (by decide)) onlyB =
    .error .panic :=
  rfl

/-- With one path for both, the file is there only if the server comes first. -/
example :
    (parseProxies namesOnly asListed
      (smallFile [] [serverProvider, localProvider "a.yaml"] (by decide)) onlyB).isOk = true ∧
    (parseProxies namesOnly asListed
      (smallFile [] [localProvider "a.yaml", serverProvider] (by decide)) onlyB).isOk = false :=
  ⟨rfl, rfl⟩

end RuleBaseProxy.Config.Parse
