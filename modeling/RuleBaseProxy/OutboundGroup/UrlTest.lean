import RuleBaseProxy.Lib.Transition

/-! # The url-test group

What a proxy records about itself, and the choice a url-test group makes from
these records every fifteen seconds. A dead proxy, one that has never been
tested and one whose last test counted no whole millisecond all report the same
delay, the largest one there is.
-/

namespace RuleBaseProxy.OutboundGroup.URLTest

open TransitionSystem

structure DelayHistory where
  time : Int
  delay : UInt16

/-- `adapter.Proxy`, as far as tests and dials change it. -/
structure Proxy where
  alive : Bool
  history : List DelayHistory

namespace Proxy

/-- `NewProxy`. -/
def new : Proxy := ⟨true, []⟩

def maxDelay : UInt16 := 0xffff

def lastDelay (p : Proxy) : UInt16 :=
  if !p.alive then maxDelay
  else
    match p.history.getLast? with
    | none => maxDelay
    | some history => if history.delay = 0 then maxDelay else history.delay

/-- What `DialContext` leaves behind: whether the adapter could dial. -/
def dialed (p : Proxy) (ok : Bool) : Proxy := { p with alive := ok }

/-- The deferred function of `URLTest`; `none` is an error. -/
def tested (p : Proxy) (now : Int) (t : Option UInt16) : Proxy :=
  let history := p.history ++ [⟨now, t.getD 0⟩]
  { alive := t.isSome
    history := if 10 < history.length then history.tail else history }

theorem lastDelay_le (p : Proxy) : p.lastDelay ≤ maxDelay := by
  have hle : ∀ d : UInt16, d ≤ maxDelay := by
    intro d
    have hd := d.toNat_lt
    apply UInt16.le_iff_toNat_le.mpr
    show d.toNat ≤ 65535
    omega
  exact hle p.lastDelay

theorem lastDelay_of_dead {p : Proxy} (h : p.alive = false) : p.lastDelay = maxDelay := by
  simp [lastDelay, h]

end Proxy

/-! ## What happens to the proxies of a group -/

inductive Event where
  | dial (i : Nat) (ok : Bool)
  | test (i : Nat) (now : Int) (t : Option UInt16)

def system : System (List Proxy) Event where
  step proxies
    | .dial i ok => some (proxies.modify i (·.dialed ok))
    | .test i now t => some (proxies.modify i (·.tested now t))

/-! ## The choice -/

/-- The loop of the tick over `proxies[1:]`. -/
def scan : Proxy → UInt16 → List Proxy → Proxy
  | fast, _, [] => fast
  | fast, min, proxy :: proxies =>
      if !proxy.alive then scan fast min proxies
      else
        let delay := proxy.lastDelay
        if delay < min then scan proxy delay proxies else scan fast min proxies

/-- The node that a tick of `NewURLTest` puts into `fastNode`. Without a proxy, `none` is
the panic of `proxies[0]`. -/
def tick : List Proxy → Option Proxy
  | [] => none
  | first :: rest => some (scan first first.lastDelay rest)

/-- The node chosen is alive if one can be, and none that is alive has a smaller delay. -/
structure PrefersLiving (proxies : List Proxy) (fast : Proxy) : Prop where
  alive : (∃ p ∈ proxies, p.alive = true) → fast.alive = true
  fastest : ∀ p ∈ proxies, p.alive = true → ¬ p.lastDelay < fast.lastDelay

/-- The first node is kept if no other is faster; otherwise the fastest of them is taken. -/
inductive Chosen (fast : Proxy) (rest : List Proxy) (node : Proxy) : Prop where
  | kept (heq : node = fast)
      (hrest : ∀ p ∈ rest, p.alive = true → fast.lastDelay ≤ p.lastDelay)
  | faster (hmem : node ∈ rest) (halive : node.alive = true)
      (hlt : node.lastDelay < fast.lastDelay)
      (hrest : ∀ p ∈ rest, p.alive = true → node.lastDelay ≤ p.lastDelay)

section Scan

variable {fast proxy node : Proxy} {rest : List Proxy}

theorem Chosen.skip (h : Chosen fast rest node)
    (hle : proxy.alive = true → fast.lastDelay ≤ proxy.lastDelay) :
    Chosen fast (proxy :: rest) node := by
  cases h with
  | kept heq hrest =>
      refine .kept heq ?_
      intro p hp hpalive
      rcases List.mem_cons.mp hp with rfl | hp
      · exact hle hpalive
      · exact hrest p hp hpalive
  | faster hmem halive hlt hrest =>
      refine .faster (List.mem_cons_of_mem proxy hmem) halive hlt ?_
      intro p hp hpalive
      rcases List.mem_cons.mp hp with rfl | hp
      · exact UInt16.le_trans (UInt16.le_of_lt hlt) (hle hpalive)
      · exact hrest p hp hpalive

theorem Chosen.replace (h : Chosen proxy rest node) (halive : proxy.alive = true)
    (hlt : proxy.lastDelay < fast.lastDelay) : Chosen fast (proxy :: rest) node := by
  cases h with
  | kept heq hrest =>
      subst heq
      refine .faster List.mem_cons_self halive hlt ?_
      intro p hp hpalive
      rcases List.mem_cons.mp hp with rfl | hp
      · exact UInt16.le_refl _
      · exact hrest p hp hpalive
  | faster hmem hnode hnodelt hrest =>
      refine .faster (List.mem_cons_of_mem proxy hmem) hnode (UInt16.lt_trans hnodelt hlt) ?_
      intro p hp hpalive
      rcases List.mem_cons.mp hp with rfl | hp
      · exact UInt16.le_of_lt hnodelt
      · exact hrest p hp hpalive

theorem scan_chosen (fast : Proxy) (rest : List Proxy) :
    Chosen fast rest (scan fast fast.lastDelay rest) := by
  induction rest generalizing fast with
  | nil => exact .kept rfl fun p hp => nomatch hp
  | cons proxy rest ih =>
      by_cases halive : proxy.alive = true
      · by_cases hlt : proxy.lastDelay < fast.lastDelay
        · have hscan : scan fast fast.lastDelay (proxy :: rest) =
              scan proxy proxy.lastDelay rest := by simp [scan, halive, hlt]
          rw [hscan]
          exact (ih proxy).replace halive hlt
        · have hscan : scan fast fast.lastDelay (proxy :: rest) =
              scan fast fast.lastDelay rest := by simp [scan, halive, hlt]
          rw [hscan]
          exact (ih fast).skip fun _ => UInt16.not_lt.mp hlt
      · have hscan : scan fast fast.lastDelay (proxy :: rest) =
            scan fast fast.lastDelay rest := by simp [scan, halive]
        rw [hscan]
        exact (ih fast).skip fun h => absurd h halive

theorem Chosen.mem (h : Chosen fast rest node) : node ∈ fast :: rest := by
  cases h with
  | kept heq => exact heq ▸ List.mem_cons_self
  | faster hmem => exact List.mem_cons_of_mem fast hmem

theorem Chosen.fastest (h : Chosen fast rest node) :
    ∀ p ∈ fast :: rest, p.alive = true → ¬ p.lastDelay < node.lastDelay := by
  intro p hp hpalive
  apply UInt16.not_lt.mpr
  cases h with
  | kept heq hrest =>
      rw [heq]
      rcases List.mem_cons.mp hp with rfl | hp
      · exact UInt16.le_refl _
      · exact hrest p hp hpalive
  | faster _ _ hlt hrest =>
      rcases List.mem_cons.mp hp with rfl | hp
      · exact UInt16.le_of_lt hlt
      · exact hrest p hp hpalive

end Scan

/-- The first proxy is alive, or another one that is alive has a measured delay below the
largest one, or nobody is alive. -/
def FirstOrMeasured (first : Proxy) (rest : List Proxy) : Prop :=
  first.alive = true ∨ (∃ p ∈ rest, p.alive = true ∧ p.lastDelay < Proxy.maxDelay) ∨
    ∀ p ∈ rest, p.alive = false

/-- No proxy alive is ever faster than the node chosen; but that node may be dead, exactly
when the first proxy is dead and those alive all report the largest delay. -/
theorem tick_prefersLiving_iff (first : Proxy) (rest : List Proxy) :
    ∃ fast, tick (first :: rest) = some fast ∧ fast ∈ first :: rest ∧
      (∀ p ∈ first :: rest, p.alive = true → ¬ p.lastDelay < fast.lastDelay) ∧
      (PrefersLiving (first :: rest) fast ↔ FirstOrMeasured first rest) := by
  have hchosen := scan_chosen first rest
  refine ⟨_, rfl, hchosen.mem, hchosen.fastest, ?_⟩
  have hiff : PrefersLiving (first :: rest) (scan first first.lastDelay rest) ↔
      ((∃ p ∈ first :: rest, p.alive = true) →
        (scan first first.lastDelay rest).alive = true) :=
    ⟨fun h => h.alive, fun h => ⟨h, hchosen.fastest⟩⟩
  rw [hiff]
  cases hchosen with
  | kept heq hrest =>
      rw [heq]
      constructor
      · intro h
        by_cases hfirst : first.alive = true
        · exact Or.inl hfirst
        · refine Or.inr (Or.inr ?_)
          intro p hp
          by_contra hpalive
          have hpalive : p.alive = true := by simpa using hpalive
          exact hfirst (h ⟨p, List.mem_cons_of_mem first hp, hpalive⟩)
      · intro h ⟨p, hp, hpalive⟩
        by_contra hfirst
        have hmax := Proxy.lastDelay_of_dead (Bool.eq_false_iff.mpr hfirst)
        rcases h with h | ⟨q, hq, hqalive, hqlt⟩ | h
        · exact hfirst h
        · have hle := hrest q hq hqalive
          rw [hmax] at hle
          exact UInt16.not_lt.mpr hle hqlt
        · rcases List.mem_cons.mp hp with rfl | hp
          · exact hfirst hpalive
          · rw [h p hp] at hpalive
            cases hpalive
  | faster hmem halive hlt hrest =>
      have hmax := UInt16.lt_of_lt_of_le hlt first.lastDelay_le
      exact iff_of_true (fun _ => halive) (Or.inr (Or.inl ⟨_, hmem, halive, hmax⟩))

/-- Of two new proxies the first fails its test, and the second has not been tested yet. -/
theorem tick_keeps_dead_node :
    ∃ proxies fast, system.run (List.replicate 2 Proxy.new) [.test 0 0 none] = some proxies ∧
      tick proxies = some fast ∧ ¬ PrefersLiving proxies fast := by
  refine ⟨_, _, rfl, rfl, ?_⟩
  intro h
  have halive := h.alive ⟨Proxy.new, by simp [List.replicate], rfl⟩
  cases halive

end RuleBaseProxy.OutboundGroup.URLTest
