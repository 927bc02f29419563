import RuleBaseProxy.Lib.GoString
import RuleBaseProxy.Lib.Transition

/-! # The selector group

`Set` looks a proxy up by name and keeps the object it found; from then on
`selectedProxy` returns that object. A provider that reads its source again
replaces its whole list by newly made objects, and nobody tells the selector.
-/

namespace RuleBaseProxy.OutboundGroup

open Go TransitionSystem

/-- A `C.Proxy`: an object with an identity. Two proxies of one name are two objects. -/
structure Proxy where
  ref : Nat
  name : Str
deriving DecidableEq

def getProvidersProxies (providers : List (List Proxy)) : List Proxy := providers.flatten

structure Selector where
  selected : Str
  sedProxy : Proxy
  providers : List (List Proxy)

namespace Selector

/-- `NewSelector`, which indexes the first provider and its first proxy. -/
def new (providers : List (List Proxy)) : Option Selector :=
  providers.head?.bind fun proxies =>
    proxies.head?.map fun proxy => ⟨proxy.name, proxy, providers⟩

/-- `Selector.Set`; `none` is the error `proxy not exist`. -/
def set (s : Selector) (name : Str) : Option Selector :=
  ((getProvidersProxies s.providers).find? (·.name == name)).map fun proxy =>
    { s with selected := name, sedProxy := proxy }

def selectedProxy (s : Selector) : Proxy := s.sedProxy

def setProxies (s : Selector) (i : Nat) (proxies : List Proxy) : Selector :=
  { s with providers := s.providers.set i proxies }

end Selector

/-! ## Histories -/

structure State where
  selector : Selector
  /-- The last name that was selected with success; `NewSelector` selects the first. -/
  last : Str

inductive Action where
  | set (name : Str)
  | setProxies (i : Nat) (proxies : List Proxy)

def start (providers : List (List Proxy)) : Option State :=
  (Selector.new providers).map fun s => ⟨s, s.selected⟩

def system : System State Action where
  step s
    | .set name =>
        match s.selector.set name with
        | some selector => some ⟨selector, name⟩
        | none => some s
    | .setProxies i proxies =>
        if i < s.selector.providers.length then
          some { s with selector := s.selector.setProxies i proxies }
        else none

/-- The proxy in use is one of the present ones, and it is the one selected last
if there still is a proxy of that name. -/
def UsesCurrent (s : State) : Prop :=
  s.selector.selectedProxy ∈ getProvidersProxies s.selector.providers ∧
    ((∃ p ∈ getProvidersProxies s.selector.providers, p.name = s.last) →
      s.selector.selectedProxy.name = s.last)

/-- The selected object is in the new list of the provider, or another provider has it. -/
def KeepsSelected (s : State) : Action → Prop
  | .set _ => True
  | .setProxies i proxies =>
      s.selector.sedProxy ∈ proxies ∨
        ∃ j proxies', j ≠ i ∧ s.selector.providers[j]? = some proxies' ∧
          s.selector.sedProxy ∈ proxies'

/-! ## What a step does -/

theorem step_set {s t : State} {name : Str} (h : system.step s (.set name) = some t) :
    t = s ∨ ∃ proxy ∈ getProvidersProxies s.selector.providers, proxy.name = name ∧
      t = ⟨{ s.selector with selected := name, sedProxy := proxy }, name⟩ := by
  simp only [system] at h
  split at h
  · rename_i selector hset
    cases h
    obtain ⟨proxy, hfind, rfl⟩ := Option.map_eq_some_iff.mp hset
    have hname := List.find?_some hfind
    exact Or.inr ⟨proxy, List.mem_of_find?_eq_some hfind, by simpa using hname, rfl⟩
  · cases h
    exact Or.inl rfl

theorem step_setProxies {s t : State} {i : Nat} {proxies : List Proxy}
    (h : system.step s (.setProxies i proxies) = some t) :
    i < s.selector.providers.length ∧ t = { s with selector := s.selector.setProxies i proxies } := by
  simp only [system] at h
  split at h
  · cases h
    exact ⟨‹_›, rfl⟩
  · cases h

theorem mem_getProvidersProxies_set {providers : List (List Proxy)} {i : Nat}
    (hi : i < providers.length) (proxies : List Proxy) (p : Proxy) :
    p ∈ getProvidersProxies (providers.set i proxies) ↔
      p ∈ proxies ∨ ∃ j proxies', j ≠ i ∧ providers[j]? = some proxies' ∧ p ∈ proxies' := by
  rw [getProvidersProxies, List.mem_flatten]
  constructor
  · intro h
    obtain ⟨ps, hps, hp⟩ := h
    obtain ⟨j, hj⟩ := List.mem_iff_getElem?.mp hps
    by_cases heq : i = j
    · subst heq
      rw [List.getElem?_set_self hi] at hj
      cases hj
      exact Or.inl hp
    · rw [List.getElem?_set_ne heq] at hj
      exact Or.inr ⟨j, ps, Ne.symm heq, hj, hp⟩
  · intro h
    obtain hp | ⟨j, ps, hne, hj, hp⟩ := h
    · exact ⟨proxies, List.mem_iff_getElem?.mpr ⟨i, List.getElem?_set_self hi⟩, hp⟩
    · have hset : (providers.set i proxies)[j]? = some ps := by
        rw [List.getElem?_set_ne (Ne.symm hne), hj]
      exact ⟨ps, List.mem_iff_getElem?.mpr ⟨j, hset⟩, hp⟩

/-! ## Which histories keep the selector current -/

def NameKept (s : State) : Prop := s.selector.sedProxy.name = s.last

theorem nameKept_step {s t : State} {a : Action} (hs : NameKept s)
    (h : system.step s a = some t) : NameKept t := by
  cases a with
  | set name =>
      obtain rfl | ⟨proxy, -, hname, rfl⟩ := step_set h
      · exact hs
      · exact hname
  | setProxies i proxies =>
      obtain ⟨-, rfl⟩ := step_setProxies h
      exact hs

theorem usesCurrent_step_iff {s t : State} {a : Action} (hs : NameKept s) (hp : UsesCurrent s)
    (h : system.step s a = some t) : UsesCurrent t ↔ KeepsSelected s a := by
  have hname := nameKept_step hs h
  cases a with
  | set name =>
      refine ⟨fun _ => trivial, fun _ => ⟨?_, fun _ => hname⟩⟩
      obtain rfl | ⟨proxy, hmem, -, rfl⟩ := step_set h
      · exact hp.1
      · exact hmem
  | setProxies i proxies =>
      obtain ⟨hi, rfl⟩ := step_setProxies h
      constructor
      · intro ht
        exact (mem_getProvidersProxies_set hi proxies _).mp ht.1
      · intro hkeep
        exact ⟨(mem_getProvidersProxies_set hi proxies _).mpr hkeep, fun _ => hname⟩

theorem usesCurrent_start {providers : List (List Proxy)} {s : State}
    (h : start providers = some s) : NameKept s ∧ UsesCurrent s := by
  obtain ⟨selector, hnew, rfl⟩ := Option.map_eq_some_iff.mp h
  obtain ⟨proxies, hhead, hnew⟩ := Option.bind_eq_some_iff.mp hnew
  obtain ⟨proxy, hproxy, rfl⟩ := Option.map_eq_some_iff.mp hnew
  refine ⟨rfl, ?_, fun _ => rfl⟩
  exact List.mem_flatten.mpr ⟨proxies, List.mem_of_head? hhead, List.mem_of_head? hproxy⟩

/-- A history keeps the selector on a current proxy exactly if no update takes
the selected object away. -/
theorem selector_current_iff {providers : List (List Proxy)} {s : State}
    (h : start providers = some s) (as : List Action) :
    system.Always UsesCurrent s as ↔ system.Guarded KeepsSelected s as := by
  obtain ⟨hname, hcurrent⟩ := usesCurrent_start h
  have hInv : ∀ s a t, NameKept s → UsesCurrent s → system.step s a = some t →
      KeepsSelected s a → NameKept t := fun _ _ _ hs _ hstep _ => nameKept_step hs hstep
  have hP : ∀ s a t, NameKept s → UsesCurrent s → system.step s a = some t →
      (UsesCurrent t ↔ KeepsSelected s a) := fun _ _ _ hs hp hstep => usesCurrent_step_iff hs hp hstep
  exact system.always_iff_guarded hInv hP as hname hcurrent

def node (ref : Nat) (name : String) : Proxy := ⟨ref, str name⟩

/-- Another provider is updated, and then the user selects from its new list. -/
theorem selector_current_otherProvider :
    system.Always UsesCurrent
      ⟨⟨str "a", node 1 "a", [[node 1 "a"], [node 2 "b"]]⟩, str "a"⟩
      [.setProxies 1 [node 3 "b"], .set (str "b")] := by
  have hstart : start [[node 1 "a"], [node 2 "b"]] =
      some ⟨⟨str "a", node 1 "a", [[node 1 "a"], [node 2 "b"]]⟩, str "a"⟩ := rfl
  refine (selector_current_iff hstart _).mpr ?_
  refine System.Guarded.cons _ rfl ?_ (System.Guarded.cons _ rfl trivial trivial)
  exact Or.inr ⟨0, [node 1 "a"], by decide, rfl, by decide +kernel⟩

/-- The provider of the selected proxy reads the same source again: the proxies
have the same names and are other objects. -/
theorem selector_keeps_replaced_proxy :
    ¬ ∀ (providers : List (List Proxy)) (s : State), start providers = some s →
      ∀ as : List Action, system.Always UsesCurrent s as := by
  intro hall
  have halways := hall [[node 1 "a", node 2 "b"]] _ rfl [.setProxies 0 [node 3 "a", node 4 "b"]]
  refine system.not_always_of_run ⟨_, rfl, fun hbad => ?_⟩ halways
  exact absurd hbad.1 (by decide +kernel)

end RuleBaseProxy.OutboundGroup
