import RuleBaseProxy.Config.GroupSort

/-! # The loop in the proxy groups

When the sort has left something, step 2 of `proxyGroupsDagSort` turns the
references around and takes off the names that refer to nothing. What remains
is reported as the loop: the groups that come after a cycle and before one.
Those on a cycle are among them.
-/

namespace RuleBaseProxy.Config.GroupSort

open Go Kahn Relation

variable {ν δ : Type} {decode : δ → GroupCommonOption ν × Option Str} {groups : List δ}

def OnCycle (decode : δ → GroupCommonOption ν × Option Str) (groups : List δ) (d : δ) : Prop :=
  TransGen (RefersTo decode groups) d d

/-- A chain of references leads from a cycle to the group, and one from there to a cycle. -/
def BetweenCycles (decode : δ → GroupCommonOption ν × Option Str) (groups : List δ) (d : δ) : Prop :=
  (∃ a, OnCycle decode groups a ∧ ReflTransGen (RefersTo decode groups) a d) ∧
    ∃ b, OnCycle decode groups b ∧ ReflTransGen (RefersTo decode groups) d b

theorem OnCycle.between {d : δ} (h : OnCycle decode groups d) : BetweenCycles decode groups d :=
  ⟨⟨d, h, .refl⟩, d, h, .refl⟩

theorem OnCycle.mem {d : δ} (h : OnCycle decode groups d) : d ∈ groups := by
  rcases TransGen.head'_iff.mp h with ⟨e, hde, -⟩
  exact hde.1

/-! ## Step 2 -/

section Report

variable [DecidableEq ν]

/-- The references that step 2.1 has turned around are those inside the graph. -/
theorem refers_fromsOf_iff {left filled : Graph ν δ} {names : List ν} (hfilled : Filled left filled)
    (hnames : names.Perm left.keys)
    (hproxies : ∀ x ∈ left, proxiesAt left x = proxiesOf decode groups x)
    (hfroms : ∀ x y, y ∈ fromsOf filled x ↔ y ∈ names ∧ x ∈ proxiesAt left y) (x y : ν) :
    Refers (fromsOf filled) filled.keys y x ↔
      Within (NameRefers decode groups) filled.keys x y := by
  unfold Refers Within NameRefers
  rw [hfroms, hnames.mem_iff, ← AList.mem_keys, ← AList.mem_keys, ← AList.mem_keys,
    hfilled.mem_iff, hfilled.mem_iff]
  constructor
  · intro ⟨hy, hx, hxy⟩
    rw [hproxies x hx] at hxy
    exact ⟨hx, hy, hxy⟩
  · intro ⟨hx, hy, hxy⟩
    rw [← hproxies x hx] at hxy
    exact ⟨hy, hx, hxy⟩

theorem proxyGroupsDagSort_loop (hdecode : ∀ d ∈ groups, (decode d).2 = none)
    (hnames : (groups.map fun d => (decode d).1.name).Nodup)
    (hcycle : ∃ d, OnCycle decode groups d) (order : RangeOrder ν) :
    ∃ r loopElements, proxyGroupsDagSort decode order groups = some r ∧
      r.err = some (.loop loopElements) ∧
      ∀ x, x ∈ loopElements ↔
        (∃ y, TransGen (NameRefers decode groups) y y ∧
          ReflTransGen (NameRefers decode groups) y x) ∧
        ∃ y, TransGen (NameRefers decode groups) y y ∧
          ReflTransGen (NameRefers decode groups) x y := by
  rcases sort_spec hdecode hnames order with ⟨graph, left, sorted, hbuild, hloop, hleft⟩
  have hne : left.keys.length ≠ 0 := fun hzero => (hleft.empty_iff hnames).mp hzero hcycle
  have hrebuild : ∀ x ∈ order.keys .rebuild left.keys, x ∈ left :=
    fun x hx => AList.mem_keys.mpr ((order.perm .rebuild left.keys).mem_iff.mp hx)
  rcases fill_filled hleft.closed hleft.fresh hrebuild with ⟨filled, hfill, hfilled, hfroms⟩
  rcases hfilled.leavesLoop_spec (order.perm .leaves filled.keys) with ⟨rest, hrest, hmem⟩
  refine ⟨⟨some (.loop (order.keys .report rest.keys)), sorted⟩, _, ?_, rfl, ?_⟩
  · rw [proxyGroupsDagSort, hbuild]
    simp only [hloop, if_neg hne, hfill, hrest]
  · intro x
    rw [(order.perm .report rest.keys).mem_iff, ← AList.mem_keys, hmem x, hfilled.mem_iff]
    have hkeys : ∀ z, z ∈ filled.keys ↔ z ∈ left := by
      intro z
      rw [← AList.mem_keys, hfilled.mem_iff]
    have hafter : ∀ z ∈ filled.keys, ∀ w, NameRefers decode groups z w → w ∈ filled.keys := by
      intro z hz w hzw
      rcases (hleft.mem_iff z).mp ((hkeys z).mp hz) with ⟨y, hy, hyz⟩
      exact (hkeys w).mpr ((hleft.mem_iff w).mpr ⟨y, hy, hyz.tail hzw⟩)
    have hswap := refers_fromsOf_iff hfilled (order.perm .rebuild left.keys) hleft.proxies hfroms
    rw [← hleft.mem_iff x]
    refine and_congr_right fun hx => ?_
    exact cycle_before_swap_iff hafter hswap ((hkeys x).mpr hx)

/-! ## From names to groups -/

theorem reflTransGen_nameRefers_iff (hnames : (groups.map fun d => (decode d).1.name).Nodup)
    {d e : δ} (hd : d ∈ groups) (he : e ∈ groups) :
    ReflTransGen (NameRefers decode groups) (decode d).1.name (decode e).1.name ↔
      ReflTransGen (RefersTo decode groups) d e := by
  rw [reflTransGen_iff_eq_or_transGen, reflTransGen_iff_eq_or_transGen,
    transGen_nameRefers_iff hnames hd he]
  refine or_congr_left ?_
  constructor
  · intro h
    exact List.inj_on_of_nodup_map hnames he hd h
  · intro h
    rw [h]

/-- The names between two cycles are those of groups between two cycles. -/
theorem between_iff (hnames : (groups.map fun d => (decode d).1.name).Nodup) {x : ν} :
    ((∃ y, TransGen (NameRefers decode groups) y y ∧
        ReflTransGen (NameRefers decode groups) y x) ∧
      ∃ y, TransGen (NameRefers decode groups) y y ∧
        ReflTransGen (NameRefers decode groups) x y) ↔
      ∃ d ∈ groups, (decode d).1.name = x ∧ BetweenCycles decode groups d := by
  constructor
  · intro ⟨⟨y, hy, hyx⟩, z, hz, hxz⟩
    rcases (cycle_iff hnames).mp hy with ⟨a, ha, rfl, hacycle⟩
    rcases (cycle_iff hnames).mp hz with ⟨b, hb, rfl, hbcycle⟩
    have hgroup : ∃ d ∈ groups, (decode d).1.name = x := by
      rcases reflTransGen_iff_eq_or_transGen.mp hxz with heq | htrans
      · exact ⟨b, hb, heq⟩
      · rcases transGen_refersTo htrans hb rfl with ⟨d, hd, hname, -⟩
        exact ⟨d, hd, hname⟩
    rcases hgroup with ⟨d, hd, rfl⟩
    exact ⟨d, hd, rfl, ⟨a, hacycle, (reflTransGen_nameRefers_iff hnames ha hd).mp hyx⟩,
      b, hbcycle, (reflTransGen_nameRefers_iff hnames hd hb).mp hxz⟩
  · intro ⟨d, hd, hname, ⟨a, ha, had⟩, b, hb, hdb⟩
    subst hname
    exact ⟨⟨_, (cycle_iff hnames).mpr ⟨a, ha.mem, rfl, ha⟩,
        (reflTransGen_nameRefers_iff hnames ha.mem hd).mpr had⟩,
      _, (cycle_iff hnames).mpr ⟨b, hb.mem, rfl, hb⟩,
      (reflTransGen_nameRefers_iff hnames hd hb.mem).mpr hdb⟩

def NamesCycles (decode : δ → GroupCommonOption ν × Option Str) (groups : List δ)
    (loopElements : List ν) : Prop :=
  ∀ x, x ∈ loopElements ↔ ∃ d ∈ groups, (decode d).1.name = x ∧ OnCycle decode groups d

/-- With a cycle among the groups, `proxyGroupsDagSort` reports the groups between two
cycles, whatever the order in which the maps are iterated. They are the groups on a cycle
exactly if no other group comes after one cycle and before another. -/
theorem loop_report_iff (decode : δ → GroupCommonOption ν × Option Str) (order : RangeOrder ν)
    (groups : List δ) (hdecode : ∀ d ∈ groups, (decode d).2 = none)
    (hnames : (groups.map fun d => (decode d).1.name).Nodup)
    (hcycle : ∃ d, OnCycle decode groups d) :
    ∃ r loopElements, proxyGroupsDagSort decode order groups = some r ∧
      r.err = some (.loop loopElements) ∧ loopElements ≠ [] ∧
      (∀ x, x ∈ loopElements ↔
        ∃ d ∈ groups, (decode d).1.name = x ∧ BetweenCycles decode groups d) ∧
      (NamesCycles decode groups loopElements ↔
        ∀ d ∈ groups, BetweenCycles decode groups d → OnCycle decode groups d) := by
  rcases proxyGroupsDagSort_loop hdecode hnames hcycle order with ⟨r, loopElements, hr, herr, hmem⟩
  have hbetween : ∀ x, x ∈ loopElements ↔
      ∃ d ∈ groups, (decode d).1.name = x ∧ BetweenCycles decode groups d :=
    fun x => (hmem x).trans (between_iff hnames)
  refine ⟨r, loopElements, hr, herr, ?_, hbetween, ?_⟩
  · rcases hcycle with ⟨d, hd⟩
    exact List.ne_nil_of_mem ((hbetween _).mpr ⟨d, hd.mem, rfl, hd.between⟩)
  · constructor
    · intro hcycles d hd hdbetween
      have hreported := (hbetween _).mpr ⟨d, hd, rfl, hdbetween⟩
      rcases (hcycles _).mp hreported with ⟨e, he, hname, hecycle⟩
      rwa [List.inj_on_of_nodup_map hnames he hd hname] at hecycle
    · intro hall x
      rw [hbetween x]
      constructor
      · intro ⟨d, hd, hname, hdbetween⟩
        exact ⟨d, hd, hname, hall d hd hdbetween⟩
      · intro ⟨d, hd, hname, hdcycle⟩
        exact ⟨d, hd, hname, hdcycle.between⟩

end Report

def ring : List (GroupCommonOption Str) := [⟨str "a", [str "b"]⟩, ⟨str "b", [str "a"]⟩]

theorem loop_report_ring :
    (ring.map fun d => d.name).Nodup ∧
      ∃ r loopElements, proxyGroupsDagSort asIs listOrder ring = some r ∧
        r.err = some (.loop loopElements) ∧ loopElements ≠ [] := by
  have hnames : (ring.map fun d => (asIs d).1.name).Nodup := by decide
  have hcycle : ∃ d, OnCycle asIs ring d := by
    refine ⟨⟨str "a", [str "b"]⟩, TransGen.tail (.single (b := ⟨str "b", [str "a"]⟩) ?_) ?_⟩
    · exact ⟨by simp [ring], by simp [ring], by simp [asIs]⟩
    · exact ⟨by simp [ring], by simp [ring], by simp [asIs]⟩
  rcases loop_report_iff asIs listOrder ring (fun _ _ => rfl) hnames hcycle with
    ⟨r, loopElements, hr, herr, hne, -⟩
  exact ⟨hnames, r, loopElements, hr, herr, hne⟩

/-- `b` refers to a group on a cycle, and a group on another cycle refers to `b`. -/
def bridge : List (GroupCommonOption Str) :=
  [⟨str "a", [str "a", str "b"]⟩, ⟨str "b", [str "c"]⟩, ⟨str "c", [str "c"]⟩]

theorem bridge_refersTo_c {d e : GroupCommonOption Str} (h : RefersTo asIs bridge d e)
    (hd : d.proxies = [str "c"]) : e = ⟨str "c", [str "c"]⟩ := by
  have hname : e.name = str "c" := List.mem_singleton.mp (hd ▸ h.2.2)
  have he := h.2.1
  simp only [bridge, List.mem_cons, List.not_mem_nil, or_false] at he
  rcases he with rfl | rfl | rfl
  · exact absurd hname (by decide)
  · exact absurd hname (by decide)
  · rfl

theorem bridge_after_b {e : GroupCommonOption Str}
    (h : TransGen (RefersTo asIs bridge) ⟨str "b", [str "c"]⟩ e) : e = ⟨str "c", [str "c"]⟩ := by
  induction h with
  | single hbe => exact bridge_refersTo_c hbe rfl
  | tail _ hce ih =>
      subst ih
      exact bridge_refersTo_c hce rfl

/-- `b` is reported and is on no cycle. -/
theorem loop_report_bridge :
    ∃ r, proxyGroupsDagSort asIs listOrder bridge = some r ∧
      r.err = some (.loop [str "b", str "a", str "c"]) ∧
      ¬ NamesCycles asIs bridge [str "b", str "a", str "c"] := by
  refine ⟨_, rfl, rfl, ?_⟩
  intro hcycles
  rcases (hcycles (str "b")).mp (by decide) with ⟨d, hd, hname, hcycle⟩
  simp only [bridge, List.mem_cons, List.not_mem_nil, or_false] at hd
  rcases hd with rfl | rfl | rfl
  · exact absurd hname (by decide)
  · exact absurd (congrArg (·.name) (bridge_after_b hcycle)) (by decide)
  · exact absurd hname (by decide)

end RuleBaseProxy.Config.GroupSort
