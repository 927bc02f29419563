import RuleBaseProxy.Component.Trie
import RuleBaseProxy.Lib.WildcardPath

/-! # What a lookup finds

A trie is described by the patterns inserted into it. `Insert` expands a pattern
to one or two paths; `Search` goes to the node of highest priority that covers the
domain. Nodes on the way to a longer pattern count there although they have no
data.
-/

namespace RuleBaseProxy.Trie

open Go WildcardPath

/-- The paths that `Insert` writes, from the right. -/
def expand (domain : Str) : List (List Str) :=
  match validAndSplitDomain domain with
  | none => []
  | some parts =>
      if parts.head? = some complexWildcard then
        [(parts.drop 1).reverse, (dotWildcard :: parts.drop 1).reverse]
      else [parts.reverse]

/-- The labels that `Search` looks for, from the right; `none` where it returns nil
at once. -/
def labels (domain : Str) : Option (List Str) :=
  (validAndSplitDomain domain).bind fun parts =>
    if parts.head? = some [] then none else some parts.reverse

section Patterns

variable {α : Type u} (entries : List (Str × α))

def Inserted (k : List Str) : Prop := ∃ e ∈ entries, k ∈ expand e.1

/-- Ends of inserted patterns, read from the right: the nodes of the trie. -/
def Occurs (q : List Str) : Prop := q = [] ∨ ∃ k, Inserted entries k ∧ q <+: k

/-- The data of the most recent `Insert` of a pattern that expands to `k`. -/
def lastData (k : List Str) : Option α := (entries.reverse.find? (k ∈ expand ·.1)).map (·.2)

def Matched (ls : List Str) : Prop :=
  ∃ k, Inserted entries k ∧ Covers wildcard dotWildcard k ls

end Patterns

/-! ## Following a path -/

variable {α : Type u}

def Node.follow : Node α → List Str → Option (Node α)
  | n, [] => some n
  | n, l :: ls => (n.getChild l).bind fun c => c.follow ls

theorem lookup_filter_ne {β : Type v} (children : List (Str × β)) {l s : Str} (h : l ≠ s) :
    (children.filter (·.1 ≠ s)).lookup l = children.lookup l := by
  induction children with
  | nil => rfl
  | cons c children ih =>
      obtain ⟨x, c⟩ := c
      by_cases hx : x = s
      · subst hx
        have hne : (l == x) = false := by simpa using h
        simpa [List.lookup_cons, hne] using ih
      · rw [List.filter_cons_of_pos (by simpa using hx), List.lookup_cons, List.lookup_cons, ih]

theorem getChild_setChild (n : Node α) (s : Str) (c : Node α) (l : Str) :
    (n.setChild s c).getChild l = if l = s then some c else n.getChild l := by
  obtain ⟨data, children⟩ := n
  simp only [Node.setChild, Node.getChild, List.lookup_cons]
  by_cases h : l = s
  · simp [h]
  · have hbeq : (l == s) = false := by simpa using h
    simp only [hbeq, if_neg h]
    exact lookup_filter_ne children h

theorem follow_newNode (l : Str) (ls : List Str) : (newNode : Node α).follow (l :: ls) = none := rfl

/-- A node after `insert`: those on the way to the path are there, and only the
last one has new data. -/
theorem isSome_follow_insert (x : α) (k : List Str) (n : Node α) (q : List Str) :
    ((n.insert x k).follow q).isSome ↔ (n.follow q).isSome ∨ q <+: k := by
  induction k generalizing n q with
  | nil =>
      obtain ⟨data, children⟩ := n
      cases q with
      | nil => simp [Node.follow]
      | cons l ls =>
          have hsame : ((Node.mk data children).insert x []).follow (l :: ls) =
              (Node.mk data children).follow (l :: ls) := rfl
          simp [hsame]
  | cons part parts ih =>
      cases q with
      | nil => simp [Node.follow]
      | cons l ls =>
          simp only [Node.insert, Node.follow, getChild_setChild]
          by_cases h : l = part
          · subst h
            simp only [if_true, Option.bind_some, ih, List.cons_prefix_cons, true_and]
            cases hc : n.getChild l with
            | some c => simp
            | none =>
                cases ls with
                | nil => simp
                | cons l' ls => simp [follow_newNode]
          · simp [h, List.cons_prefix_cons]

theorem data_follow_insert (x : α) (k : List Str) (n : Node α) (q : List Str) :
    ((n.insert x k).follow q).bind Node.data =
      if q = k then some x else (n.follow q).bind Node.data := by
  induction k generalizing n q with
  | nil =>
      obtain ⟨data, children⟩ := n
      cases q with
      | nil => rfl
      | cons l ls => rfl
  | cons part parts ih =>
      cases q with
      | nil =>
          obtain ⟨data, children⟩ := n
          rw [if_neg (by simp)]
          rfl
      | cons l ls =>
          simp only [Node.insert, Node.follow, getChild_setChild]
          by_cases h : l = part
          · subst h
            simp only [if_true, Option.bind_some, ih, List.cons.injEq, true_and]
            cases hc : n.getChild l with
            | some c => rfl
            | none =>
                cases ls with
                | nil => rfl
                | cons l' ls => rfl
          · simp [h]

/-! ## The trie of a sequence of inserts -/

theorem root_insert (t : DomainTrie α) (domain : Str) (x : α) :
    ((t.insert domain x).getD t).root = (expand domain).foldl (fun n k => n.insert x k) t.root := by
  unfold DomainTrie.insert expand
  cases validAndSplitDomain domain with
  | none => rfl
  | some parts =>
      simp only [Option.map_some, Option.getD_some]
      split <;> rfl

theorem isSome_follow_foldl (x : α) (ks : List (List Str)) (n : Node α) (q : List Str) :
    ((ks.foldl (fun n k => n.insert x k) n).follow q).isSome ↔
      (n.follow q).isSome ∨ ∃ k ∈ ks, q <+: k := by
  induction ks generalizing n with
  | nil => simp
  | cons k ks ih => simp [ih, isSome_follow_insert, or_assoc]

theorem data_follow_foldl (x : α) (ks : List (List Str)) (n : Node α) (q : List Str) :
    ((ks.foldl (fun n k => n.insert x k) n).follow q).bind Node.data =
      if q ∈ ks then some x else (n.follow q).bind Node.data := by
  induction ks generalizing n with
  | nil => simp
  | cons k ks ih =>
      simp only [List.foldl_cons, ih, data_follow_insert, List.mem_cons]
      by_cases hks : q ∈ ks
      · simp [hks]
      · simp [hks]

theorem insertAll_concat (t : DomainTrie α) (entries : List (Str × α)) (e : Str × α) :
    t.insertAll (entries ++ [e]) =
      ((t.insertAll entries).insert e.1 e.2).getD (t.insertAll entries) := by
  simp [DomainTrie.insertAll]

theorem inserted_concat (entries : List (Str × α)) (e : Str × α) (k : List Str) :
    Inserted (entries ++ [e]) k ↔ Inserted entries k ∨ k ∈ expand e.1 := by
  simp [Inserted, or_and_right, exists_or]

theorem lastData_concat (entries : List (Str × α)) (e : Str × α) (k : List Str) :
    lastData (entries ++ [e]) k = if k ∈ expand e.1 then some e.2 else lastData entries k := by
  unfold lastData
  rw [List.reverse_concat, List.find?_cons]
  by_cases h : k ∈ expand e.1
  · simp [h]
  · simp [h]

/-- The nodes of the trie are the ends of the inserted patterns. -/
theorem isSome_follow_iff_occurs (entries : List (Str × α)) (q : List Str) :
    ((DomainTrie.new.insertAll entries).root.follow q).isSome ↔ Occurs entries q := by
  induction entries using List.reverseRecOn with
  | nil =>
      cases q with
      | nil => exact iff_of_true rfl (Or.inl rfl)
      | cons l ls =>
          refine iff_of_false nofun ?_
          intro h
          rcases h with h | ⟨k, ⟨e, he, _⟩, _⟩
          · cases h
          · cases he
  | append_singleton entries e ih =>
      rw [insertAll_concat, root_insert, isSome_follow_foldl, ih]
      simp only [Occurs, inserted_concat, or_and_right, exists_or, or_assoc]

/-- Each node holds what was inserted last for its path. -/
theorem data_follow_eq_lastData (entries : List (Str × α)) (q : List Str) :
    ((DomainTrie.new.insertAll entries).root.follow q).bind Node.data = lastData entries q := by
  induction entries using List.reverseRecOn with
  | nil =>
      cases q with
      | nil => rfl
      | cons l ls => rfl
  | append_singleton entries e ih =>
      rw [insertAll_concat, root_insert, data_follow_foldl, lastData_concat, ih]

theorem lastData_isSome_iff (entries : List (Str × α)) (k : List Str) :
    (lastData entries k).isSome ↔ Inserted entries k := by
  induction entries using List.reverseRecOn with
  | nil => simp [lastData, Inserted]
  | append_singleton entries e ih =>
      rw [lastData_concat, inserted_concat, ← ih]
      by_cases h : k ∈ expand e.1
      · simp [h]
      · simp [h]

/-! ## The search -/

theorem wildcard_ne_dotWildcard : wildcard ≠ dotWildcard := by decide

theorem search_cons (n : Node α) (l : Str) (ls : List Str) :
    n.search (l :: ls) = ((n.getChild l).bind (Node.search · ls)).or
      (((n.getChild wildcard).bind (Node.search · ls)).or (n.getChild dotWildcard)) := by
  rw [Node.search]
  cases (n.getChild l).bind (Node.search · ls) with
  | some m => rfl
  | none =>
      cases (n.getChild wildcard).bind (Node.search · ls) with
      | some m => rfl
      | none => rfl

theorem follow_singleton (n : Node α) (l : Str) : n.follow [l] = n.getChild l := by
  simp only [Node.follow]
  cases n.getChild l <;> rfl

theorem search_eq_none_iff (n : Node α) (ls : List Str) :
    n.search ls = none ↔ ∀ q, Covers wildcard dotWildcard q ls → n.follow q = none := by
  induction ls generalizing n with
  | nil =>
      refine iff_of_false nofun fun h => ?_
      cases h [] .nil
  | cons l ls ih =>
      have hchild : ∀ s, (n.getChild s).bind (Node.search · ls) = none ↔
          ∀ q, Covers wildcard dotWildcard q ls → n.follow (s :: q) = none := by
        intro s
        simp only [Node.follow]
        cases n.getChild s with
        | none => simp
        | some c => simpa using ih c
      rw [search_cons, Option.or_eq_none_iff, Option.or_eq_none_iff, hchild, hchild,
        ← follow_singleton]
      constructor
      · intro ⟨hl, hstar, hdot⟩ q hq
        rcases covers_cons_iff.mp hq with ⟨p, rfl, hp⟩ | ⟨p, rfl, hp⟩ | rfl
        · exact hl p hp
        · exact hstar p hp
        · exact hdot
      · intro h
        exact ⟨fun q hq => h _ (.label hq), fun q hq => h _ (.star hq), h _ .dot⟩

/-- Where the search below a child fails, no path through that child covers the labels. -/
theorem follow_cons_eq_none_of_search {n : Node α} {s : Str} {ls p : List Str}
    (hs : (n.getChild s).bind (Node.search · ls) = none) (hp : Covers wildcard dotWildcard p ls) :
    n.follow (s :: p) = none := by
  cases hc : n.getChild s with
  | none => simp [Node.follow, hc]
  | some c =>
      simp only [hc, Option.bind_some] at hs
      simpa [Node.follow, hc] using (search_eq_none_iff c ls).mp hs p hp

/-- The search goes to the node that has priority among those that cover the labels. -/
theorem search_selects (n : Node α) {ls : List Str} (hls : dotWildcard ∉ ls) {m : Node α}
    (h : n.search ls = some m) :
    ∃ q, Selects wildcard dotWildcard (fun q => (n.follow q).isSome) ls q ∧ n.follow q = some m := by
  induction ls generalizing n with
  | nil =>
      cases h
      refine ⟨[], ⟨rfl, .nil, fun p _ hp => ?_⟩, rfl⟩
      rw [covers_nil_iff.mp hp]
      exact not_prior_self []
  | cons l ls ih =>
      simp only [List.mem_cons, not_or] at hls
      obtain ⟨hl, hls⟩ := hls
      obtain ⟨hld, hsd, hlstar⟩ := rank_lt_of_ne (Ne.symm hl) wildcard_ne_dotWildcard
      have hbelow : ∀ s, (n.getChild s).bind (Node.search · ls) = some m →
          ∃ q, Covers wildcard dotWildcard q ls ∧ n.follow (s :: q) = some m ∧
            ∀ p, (n.follow (s :: p)).isSome → Covers wildcard dotWildcard p ls →
              ¬ Prior wildcard dotWildcard (s :: p) (s :: q) := by
        intro s hs
        obtain ⟨c, hc, hsearch⟩ := Option.bind_eq_some_iff.mp hs
        obtain ⟨q, hq, hfollow⟩ := ih c hls hsearch
        have hstep : ∀ p, n.follow (s :: p) = c.follow p := fun p => by simp [Node.follow, hc]
        refine ⟨q, hq.covers, (hstep q).trans hfollow, fun p hp hcov => ?_⟩
        rw [hstep] at hp
        rw [prior_cons_self]
        exact hq.first p hp hcov
      rw [search_cons, Option.or_eq_some_iff, Option.or_eq_some_iff] at h
      rcases h with h | ⟨hlnone, h | ⟨hsnone, h⟩⟩
      · obtain ⟨q, hq, hfollow, hfirst⟩ := hbelow l h
        refine ⟨l :: q, ⟨by simp [hfollow], .label hq, fun p hp hcov => ?_⟩, hfollow⟩
        rcases covers_cons_iff.mp hcov with ⟨p, rfl, hp'⟩ | ⟨p, rfl, hp'⟩ | rfl
        · exact hfirst p hp hp'
        · by_cases heq : l = wildcard
          · subst heq
            exact hfirst p hp hp'
          · have hrank := hlstar heq
            rw [prior_cons_iff]
            omega
        · rw [prior_cons_iff]
          omega
      · obtain ⟨q, hq, hfollow, hfirst⟩ := hbelow wildcard h
        refine ⟨wildcard :: q, ⟨by simp [hfollow], .star hq, fun p hp hcov => ?_⟩, hfollow⟩
        rcases covers_cons_iff.mp hcov with ⟨p, rfl, hp'⟩ | ⟨p, rfl, hp'⟩ | rfl
        · simp [follow_cons_eq_none_of_search hlnone hp'] at hp
        · exact hfirst p hp hp'
        · rw [prior_cons_iff]
          omega
      · rw [← follow_singleton] at h
        refine ⟨[dotWildcard], ⟨by simp [h], .dot, fun p hp hcov => ?_⟩, h⟩
        rcases covers_cons_iff.mp hcov with ⟨p, rfl, hp'⟩ | ⟨p, rfl, hp'⟩ | rfl
        · simp [follow_cons_eq_none_of_search hlnone hp'] at hp
        · simp [follow_cons_eq_none_of_search hsnone hp'] at hp
        · exact not_prior_self _

/-! ## Lookups in the trie of a sequence of inserts -/

theorem dotWildcard_not_mem_labels {d : Str} {ls : List Str} (h : labels d = some ls) :
    dotWildcard ∉ ls := by
  obtain ⟨parts, hparts, h⟩ := Option.bind_eq_some_iff.mp h
  obtain ⟨hhead, ⟨⟩⟩ := Option.ite_none_left_eq_some.mp h
  rw [List.mem_reverse]
  unfold validAndSplitDomain at hparts
  split at hparts
  · cases hparts
  split at hparts
  · obtain ⟨hne, ⟨⟩⟩ := Option.ite_none_left_eq_some.mp hparts
    simpa [dotWildcard, eq_comm] using hne
  · obtain ⟨hany, ⟨⟩⟩ := Option.ite_none_left_eq_some.mp hparts
    intro hmem
    cases hsplit : split d 46 with
    | nil => simp [hsplit] at hmem
    | cons first rest =>
        simp only [hsplit, List.mem_cons, List.head?_cons, Option.some.injEq, List.drop_one,
          List.tail_cons, List.any_eq_true, decide_eq_true_eq] at hmem hhead hany
        rcases hmem with hmem | hmem
        · exact hhead hmem.symm
        · exact hany ⟨_, hmem, rfl⟩

theorem search_of_labels (t : DomainTrie α) {d : Str} {ls : List Str} (h : labels d = some ls) :
    t.search d = (t.root.search ls).bind Node.data := by
  obtain ⟨parts, hparts, h⟩ := Option.bind_eq_some_iff.mp h
  obtain ⟨hhead, ⟨⟩⟩ := Option.ite_none_left_eq_some.mp h
  rw [DomainTrie.search, hparts]
  exact if_neg hhead

theorem search_of_labels_none (t : DomainTrie α) {d : Str} (h : labels d = none) :
    t.search d = none := by
  unfold DomainTrie.search
  unfold labels at h
  split
  · rfl
  · rename_i parts hparts
    rw [hparts, Option.bind_some] at h
    split
    · rfl
    · rename_i hhead
      rw [if_neg hhead] at h
      cases h

variable {entries : List (Str × α)} {d : Str} {ls : List Str}

abbrev Selected (entries : List (Str × α)) (ls q : List Str) : Prop :=
  Selects wildcard dotWildcard (Occurs entries) ls q

theorem Selected.unique (hd : labels d = some ls) {p q : List Str} (hp : Selected entries ls p)
    (hq : Selected entries ls q) : p = q :=
  Selects.unique wildcard_ne_dotWildcard (dotWildcard_not_mem_labels hd) hp hq

theorem exists_selected (hd : labels d = some ls) {p : List Str} (hp : Occurs entries p)
    (hcov : Covers wildcard dotWildcard p ls) :
    ∃ q, Selected entries ls q ∧
      (DomainTrie.new.insertAll entries).search d = lastData entries q := by
  have hsome : (DomainTrie.new.insertAll entries).root.search ls ≠ none := by
    intro hnone
    have hfollow := (search_eq_none_iff _ ls).mp hnone p hcov
    rw [← isSome_follow_iff_occurs, hfollow] at hp
    cases hp
  obtain ⟨m, hm⟩ := Option.ne_none_iff_exists'.mp hsome
  obtain ⟨q, hq, hfollow⟩ := search_selects _ (dotWildcard_not_mem_labels hd) hm
  refine ⟨q, ?_, ?_⟩
  · refine ⟨(isSome_follow_iff_occurs entries q).mp hq.mem, hq.covers, fun r hr hcov => ?_⟩
    exact hq.first r ((isSome_follow_iff_occurs entries r).mpr hr) hcov
  · rw [search_of_labels _ hd, hm, ← data_follow_eq_lastData, hfollow]

theorem search_of_selected (hd : labels d = some ls) {q : List Str} (hq : Selected entries ls q) :
    (DomainTrie.new.insertAll entries).search d = lastData entries q := by
  obtain ⟨q', hq', hsearch⟩ := exists_selected hd hq.mem hq.covers
  rw [hsearch, Selected.unique hd hq' hq]

theorem exists_selected_of_search {x : α}
    (h : (DomainTrie.new.insertAll entries).search d = some x) :
    ∃ ls q, labels d = some ls ∧ Selected entries ls q ∧ lastData entries q = some x := by
  cases hd : labels d with
  | none =>
      rw [search_of_labels_none _ hd] at h
      cases h
  | some ls =>
      rw [search_of_labels _ hd] at h
      obtain ⟨m, hm, -⟩ := Option.bind_eq_some_iff.mp h
      obtain ⟨q, hq, hfollow⟩ := search_selects _ (dotWildcard_not_mem_labels hd) hm
      obtain ⟨q', hq', hsearch⟩ :=
        exists_selected hd ((isSome_follow_iff_occurs entries q).mp hq.mem) hq.covers
      rw [search_of_labels _ hd, h] at hsearch
      exact ⟨ls, q', rfl, hq', hsearch.symm⟩

theorem Inserted.occurs {k : List Str} (h : Inserted entries k) : Occurs entries k :=
  Or.inr ⟨k, h, List.prefix_rfl⟩

/-! ## Completeness -/

/-- A pattern matches the domain, but the search ends before it: at the end of a
longer pattern that covers the domain too, with priority over every pattern that
matches, and was not inserted itself. -/
def Shadowed (entries : List (Str × α)) (d : Str) : Prop :=
  ∃ ls q, labels d = some ls ∧ Matched entries ls ∧
    Occurs entries q ∧ ¬ Inserted entries q ∧ Covers wildcard dotWildcard q ls ∧
    ∀ k, Inserted entries k → Covers wildcard dotWildcard k ls → Prior wildcard dotWildcard q k

/-- A domain that some inserted pattern matches is found, exactly unless it is
shadowed. -/
theorem search_complete_iff (entries : List (Str × α)) (d : Str) :
    (∀ ls, labels d = some ls → Matched entries ls →
      ((DomainTrie.new.insertAll entries).search d).isSome) ↔ ¬ Shadowed entries d := by
  constructor
  · intro h ⟨ls, q, hd, hmatched, hoccurs, hnot, hcov, hprior⟩
    obtain ⟨x, hx⟩ := Option.isSome_iff_exists.mp (h ls hd hmatched)
    obtain ⟨ls', k, hd', hk, hdata⟩ := exists_selected_of_search hx
    cases hd.symm.trans hd'
    have hinserted : Inserted entries k := by
      rw [← lastData_isSome_iff, hdata]
      rfl
    exact hk.first q hoccurs hcov (hprior k hinserted hk.covers)
  · intro h ls hd hmatched
    obtain ⟨k, hk, hkcov⟩ := hmatched
    obtain ⟨q, hq, hsearch⟩ := exists_selected hd hk.occurs hkcov
    rw [hsearch, lastData_isSome_iff]
    by_contra hnot
    refine h ⟨ls, q, hd, ⟨k, hk, hkcov⟩, hq.mem, hnot, hq.covers, fun p hp hpcov => ?_⟩
    have htri := hq.covers.trichotomy wildcard_ne_dotWildcard (dotWildcard_not_mem_labels hd) hpcov
    rcases htri with rfl | hprior | hprior
    · exact absurd hp hnot
    · exact hprior
    · exact absurd hprior (hq.first p hp.occurs hpcov)

/-- `b.com` is on the way to `x.b.com`, so `*.com` is not found for it. -/
theorem wildcard_shadowed_by_longer_pattern :
    ¬ ∀ (entries : List (Str × Nat)) (d : Str) (ls : List Str), labels d = some ls →
      Matched entries ls → ((DomainTrie.new.insertAll entries).search d).isSome := by
  intro h
  have hmatched : Matched [(str "*.com", 1), (str "x.b.com", 2)] [str "com", str "b"] :=
    ⟨[str "com", wildcard], ⟨_, List.mem_cons_self, by decide +kernel⟩, .label (.star .nil)⟩
  have hfound := h _ (str "b.com") _ (by decide +kernel) hmatched
  revert hfound
  decide +kernel

/-! ## Soundness and priority -/

/-- What is found is the data last inserted for a pattern that matches, and no
inserted pattern that matches has priority over it. -/
theorem search_sound {x : α} (h : (DomainTrie.new.insertAll entries).search d = some x) :
    ∃ ls k, labels d = some ls ∧ Covers wildcard dotWildcard k ls ∧ lastData entries k = some x ∧
      ∀ p, Inserted entries p → Covers wildcard dotWildcard p ls →
        ¬ Prior wildcard dotWildcard p k := by
  obtain ⟨ls, k, hd, hk, hdata⟩ := exists_selected_of_search h
  exact ⟨ls, k, hd, hk.covers, hdata, fun p hp hcov => hk.first p hp.occurs hcov⟩

/-- `+.dev` is inserted first, then overwritten at its bare form. -/
theorem search_sound_overwritten :
    ∃ ls k, labels (str "dev") = some ls ∧ Covers wildcard dotWildcard k ls ∧
      lastData [(str "+.dev", 0), (str "dev", 1)] k = some 1 ∧
      ∀ p, Inserted [(str "+.dev", 0), (str "dev", 1)] p → Covers wildcard dotWildcard p ls →
        ¬ Prior wildcard dotWildcard p k :=
  search_sound (by decide +kernel)

/-! ## Order of the inserts -/

section Order

variable {entries' : List (Str × α)}

theorem Inserted.perm (h : entries.Perm entries') {k : List Str} (hk : Inserted entries k) :
    Inserted entries' k := by
  obtain ⟨e, he, hmem⟩ := hk
  exact ⟨e, h.mem_iff.mp he, hmem⟩

theorem Occurs.perm (h : entries.Perm entries') {q : List Str} (hq : Occurs entries q) :
    Occurs entries' q := by
  rcases hq with rfl | ⟨k, hk, hpre⟩
  · exact Or.inl rfl
  · exact Or.inr ⟨k, hk.perm h, hpre⟩

theorem Selected.perm (h : entries.Perm entries') {q : List Str} (hq : Selected entries ls q) :
    Selected entries' ls q :=
  ⟨Occurs.perm h hq.mem, hq.covers, fun p hp hcov => hq.first p (hp.perm h.symm) hcov⟩

theorem lastData_mem {k : List Str} {x : α} (h : lastData entries k = some x) :
    ∃ e ∈ entries, k ∈ expand e.1 ∧ e.2 = x := by
  obtain ⟨e, he, hx⟩ := Option.map_eq_some_iff.mp h
  have hmem := List.mem_of_find?_eq_some he
  exact ⟨e, List.mem_reverse.mp hmem, by simpa using List.find?_some he, hx⟩

/-- Any entry that writes a path can be the last to do so. -/
theorem exists_perm_lastData {e : Str × α} (he : e ∈ entries) {k : List Str}
    (hk : k ∈ expand e.1) :
    ∃ l : List (Str × α), l.Perm entries ∧ lastData l k = some e.2 := by
  obtain ⟨a, b, rfl⟩ := List.append_of_mem he
  refine ⟨a ++ b ++ [e], ?_, ?_⟩
  · rw [List.append_assoc]
    exact List.Perm.append_left a (List.perm_append_singleton e b)
  · rw [lastData_concat, if_pos hk]

end Order

/-- The lookup of a domain comes out the same for every order of the inserts
exactly if all entries that write the path it ends at have the same data. -/
theorem search_perm_iff (entries : List (Str × α)) (d : Str) :
    (∀ l l' : List (Str × α), l.Perm entries → l'.Perm entries →
      (DomainTrie.new.insertAll l).search d = (DomainTrie.new.insertAll l').search d) ↔
    ∀ ls k, labels d = some ls → Selected entries ls k →
      ∀ e ∈ entries, ∀ e' ∈ entries, k ∈ expand e.1 → k ∈ expand e'.1 → e.2 = e'.2 := by
  constructor
  · intro h ls k hd hk e he e' he' hmem hmem'
    obtain ⟨l, hperm, hl⟩ := exists_perm_lastData he hmem
    obtain ⟨l', hperm', hl'⟩ := exists_perm_lastData he' hmem'
    have heq := h l l' hperm hperm'
    rw [search_of_selected hd (Selected.perm hperm.symm hk),
      search_of_selected hd (Selected.perm hperm'.symm hk), hl, hl'] at heq
    exact Option.some.inj heq
  · intro h l l' hperm hperm'
    have hle : ∀ {l l' : List (Str × α)}, l.Perm entries → l'.Perm entries → ∀ x,
        (DomainTrie.new.insertAll l).search d = some x →
        (DomainTrie.new.insertAll l').search d = some x := by
      intro l l' hperm hperm' x hx
      obtain ⟨ls, k, hd, hk, hdata⟩ := exists_selected_of_search hx
      obtain ⟨e, he, hmem, rfl⟩ := lastData_mem hdata
      have hk' : Selected entries ls k := hk.perm hperm
      rw [search_of_selected hd (Selected.perm hperm'.symm hk')]
      have hinserted : Inserted l' k := ⟨e, (hperm.trans hperm'.symm).mem_iff.mp he, hmem⟩
      obtain ⟨y, hy⟩ := Option.isSome_iff_exists.mp ((lastData_isSome_iff l' k).mpr hinserted)
      obtain ⟨e', he', hmem', rfl⟩ := lastData_mem hy
      rw [hy, h ls k hd hk' e (hperm.mem_iff.mp he) e' (hperm'.mem_iff.mp he') hmem hmem']
    exact Option.ext fun x => ⟨hle hperm hperm' x, hle hperm' hperm x⟩

/-- `+.x.com` and `x.com` both write the path of `x.com`. -/
theorem order_decides_shared_path :
    ¬ ∀ (entries l l' : List (Str × Nat)), (entries.map (·.1)).Nodup →
      (∀ e ∈ entries, (validAndSplitDomain e.1).isSome) → l.Perm entries → l'.Perm entries →
      ∀ d, (DomainTrie.new.insertAll l).search d = (DomainTrie.new.insertAll l').search d := by
  intro h
  have heq := h [(str "+.x.com", 1), (str "x.com", 2)] [(str "+.x.com", 1), (str "x.com", 2)]
    [(str "x.com", 2), (str "+.x.com", 1)] (by decide +kernel) (by decide +kernel) (.refl _)
    (.swap _ _ _) (str "x.com")
  revert heq
  decide +kernel

end RuleBaseProxy.Trie
