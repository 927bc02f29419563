import RuleBaseProxy.Common.SingleDo

/-! # The hops of a relay group

`rawProxies` keeps the list of the members for five seconds, and `proxies`
replaces every member that is a group by the node it chooses for the connection
at hand. It does so in the slice that is kept, so the next connection finds the
nodes in place of the groups.
-/

namespace RuleBaseProxy.OutboundGroup.RelayGroup

open SingleDo TransitionSystem

variable {μ : Type}

/-- A `C.Proxy`: an object, and what its `Unwrap` returns for every metadata. A group is
built from objects that exist already, so unwrapping comes to an end. -/
inductive Proxy (μ : Type) where
  | mk (ref : Nat) (unwrap : μ → Option (Proxy μ))

namespace Proxy

def ref : Proxy μ → Nat
  | .mk ref _ => ref

def unwrap : Proxy μ → μ → Option (Proxy μ)
  | .mk _ unwrap => unwrap

mutual

/-- What the loops of `Relay.proxies` leave in the place of a proxy. -/
def unwrapFully (metadata : μ) : Proxy μ → Proxy μ
  | .mk ref unwrap => unwrapLoop metadata (.mk ref unwrap) (unwrap metadata)

/-- `for subproxy != nil`. -/
def unwrapLoop (metadata : μ) (proxy : Proxy μ) : Option (Proxy μ) → Proxy μ
  | none => proxy
  | some subproxy => unwrapFully metadata subproxy

end

mutual

theorem unwrap_unwrapFully (m : μ) : (p : Proxy μ) → (p.unwrapFully m).unwrap m = none
  | .mk ref unwrap => by
      rw [unwrapFully]
      exact unwrap_unwrapLoop m (.mk ref unwrap) (unwrap m) rfl

theorem unwrap_unwrapLoop (m : μ) (p : Proxy μ) :
    (sub : Option (Proxy μ)) → p.unwrap m = sub → (unwrapLoop m p sub).unwrap m = none
  | none, h => by
      rw [unwrapLoop]
      exact h
  | some q, _ => by
      rw [unwrapLoop]
      exact unwrap_unwrapFully m q

end

/-- Unwrapping leaves exactly those alone that have nothing to unwrap. -/
theorem unwrapFully_eq_self_iff (m : μ) (p : Proxy μ) : p.unwrapFully m = p ↔ p.unwrap m = none := by
  constructor
  · intro h
    have hnone := unwrap_unwrapFully m p
    rwa [h] at hnone
  · intro h
    obtain ⟨ref, unwrap⟩ := p
    have hnone : unwrap m = none := h
    rw [unwrapFully, hnone, unwrapLoop]

end Proxy

def defaultGetProxiesDuration : Nat := 5 * 1000000000

theorem defaultGetProxiesDuration_pos : 0 < defaultGetProxiesDuration := by
  unfold defaultGetProxiesDuration
  omega

def getProvidersProxies (providers : List (List (Proxy μ))) : List (Proxy μ) := providers.flatten

/-- The group, with the slices that `getProvidersProxies` has made for it. `single` keeps
one of them. -/
structure Relay (μ : Type) where
  providers : List (List (Proxy μ))
  single : Single Nat
  slices : Nat → List (Proxy μ)
  next : Nat

namespace Relay

/-- `NewRelay`. -/
def new (providers : List (List (Proxy μ))) : Relay μ := ⟨providers, ⟨none, none⟩, fun _ => [], 0⟩

def members (r : Relay μ) : List (Proxy μ) := getProvidersProxies r.providers

/-- The function that `rawProxies` gives to `Do` makes a new slice. -/
def makeSlice (r : Relay μ) : Relay μ :=
  { r with slices := Function.update r.slices r.next r.members, next := r.next + 1 }

/-- The slice that is returned; `none` would be the type assertion on a nil interface. -/
def rawProxies (r : Relay μ) (now : Nat) : Option Nat × Relay μ :=
  let (slice, single) := r.single.call defaultGetProxiesDuration now r.next
  let r := if isFresh defaultGetProxiesDuration r.single.last now then r else r.makeSlice
  (slice, { r with single := single })

/-- `proxies` writes into the slice it got, and returns it. -/
def proxies (r : Relay μ) (metadata : μ) (now : Nat) : Option Nat × Relay μ :=
  match r.rawProxies now with
  | (none, r) => (none, r)
  | (some slice, r) =>
      (some slice, { r with
        slices := Function.update r.slices slice
          ((r.slices slice).map (Proxy.unwrapFully metadata)) })

def elements (result : Option Nat × Relay μ) : Option (List (Proxy μ)) :=
  result.1.map result.2.slices

end Relay

/-! ## Histories -/

structure State (μ : Type) where
  relay : Relay μ
  /-- The last call of `proxies`, and the list it returned. -/
  last : Option (μ × Option (List (Proxy μ)))

structure Call (μ : Type) where
  metadata : μ
  now : Nat

def start (providers : List (List (Proxy μ))) : State μ := ⟨Relay.new providers, none⟩

def system : System (State μ) (Call μ) where
  step s a :=
    let result := s.relay.proxies a.metadata a.now
    some ⟨result.2, some (a.metadata, Relay.elements result)⟩

/-- The call before returned what its own metadata asks for, and `rawProxies` returns the
members of the group. -/
structure Independent (members : List (Proxy μ)) (s : State μ) : Prop where
  hops : ∀ m ps, s.last = some (m, ps) → ps = some (members.map (Proxy.unwrapFully m))
  raw : ∀ now, Relay.elements (s.relay.rawProxies now) = some members

/-! ## What stays in the slice -/

structure Keeps (members : List (Proxy μ)) (r : Relay μ) (ps : List (Proxy μ)) : Prop where
  members : r.members = members
  slice : r.single.last.isSome → ∃ slice, r.single.result = some slice ∧ r.slices slice = ps

theorem Keeps.rawProxies {members ps : List (Proxy μ)} {r : Relay μ} (h : Keeps members r ps)
    (now : Nat) :
    ∃ slice r', r.rawProxies now = (some slice, r') ∧ r'.members = members ∧
      r'.single.last.isSome ∧ r'.single.result = some slice ∧
      r'.slices slice = if isFresh defaultGetProxiesDuration r.single.last now then ps else members := by
  unfold Relay.rawProxies Single.call
  cases hfresh : isFresh defaultGetProxiesDuration r.single.last now with
  | true =>
      have hlast : r.single.last.isSome := by
        cases hlast : r.single.last with
        | none =>
            rw [hlast] at hfresh
            cases hfresh
        | some t => rfl
      rcases h.slice hlast with ⟨slice, hresult, hps⟩
      exact ⟨slice, r, by simp [hresult], h.members, hlast, hresult, by simp [hps]⟩
  | false =>
      refine ⟨r.next, _, rfl, h.members, rfl, rfl, ?_⟩
      simp [Relay.makeSlice, h.members]

/-- After a call the slice that is kept has the nodes for this call in it. -/
theorem Keeps.proxies {members : List (Proxy μ)} {r : Relay μ} (h : Keeps members r members)
    (m : μ) (now : Nat) :
    Relay.elements (r.proxies m now) = some (members.map (Proxy.unwrapFully m)) ∧
      (r.proxies m now).2.single.last.isSome ∧
      Keeps members (r.proxies m now).2 (members.map (Proxy.unwrapFully m)) := by
  rcases h.rawProxies now with ⟨slice, r', hraw, hmembers, hlast, hresult, hslice⟩
  rw [ite_self] at hslice
  unfold Relay.proxies
  rw [hraw]
  refine ⟨?_, hlast, hmembers, ?_⟩
  · simp [Relay.elements, hslice]
  · intro _
    exact ⟨slice, hresult, by simp [hslice]⟩

theorem Keeps.raw_iff {members ps : List (Proxy μ)} {r : Relay μ} (h : Keeps members r ps)
    (hlast : r.single.last.isSome) :
    (∀ now, Relay.elements (r.rawProxies now) = some members) ↔ ps = members := by
  have hraw : ∀ now, Relay.elements (r.rawProxies now) =
      some (if isFresh defaultGetProxiesDuration r.single.last now then ps else members) := by
    intro now
    rcases h.rawProxies now with ⟨slice, r', heq, -, -, -, hslice⟩
    rw [heq, Relay.elements, Option.map_some, hslice]
  constructor
  · intro hall
    rcases Option.isSome_iff_exists.mp hlast with ⟨t, ht⟩
    have hfresh : isFresh defaultGetProxiesDuration r.single.last t = true := by
      rw [ht]
      exact isFresh_self defaultGetProxiesDuration_pos t
    have hnow := hraw t
    rw [if_pos hfresh, hall t] at hnow
    exact (Option.some.inj hnow).symm
  · intro heq now
    rw [hraw now, heq, ite_self]

theorem map_unwrapFully_eq_self_iff (m : μ) (members : List (Proxy μ)) :
    members.map (Proxy.unwrapFully m) = members ↔ ∀ p ∈ members, p.unwrap m = none := by
  have hid : members = members.map id := (List.map_id members).symm
  conv_lhs => rhs; rw [hid]
  rw [List.map_inj_left]
  exact forall_congr' fun p => forall_congr' fun _ => Proxy.unwrapFully_eq_self_iff m p

def Plain (members : List (Proxy μ)) (a : Call μ) : Prop :=
  ∀ p ∈ members, p.unwrap a.metadata = none

theorem independent_step_iff {members : List (Proxy μ)} {s t : State μ} {a : Call μ}
    (h : Keeps members s.relay members) (hstep : system.step s a = some t) :
    Independent members t ↔ Plain members a := by
  cases hstep
  rcases h.proxies a.metadata a.now with ⟨helements, hlast, hkeeps⟩
  have hiff := (hkeeps.raw_iff hlast).trans (map_unwrapFully_eq_self_iff a.metadata members)
  constructor
  · intro hind
    exact hiff.mp hind.raw
  · intro hplain
    refine ⟨?_, hiff.mpr hplain⟩
    intro m ps hps
    cases hps
    exact helements

/-- The calls of `proxies` on a relay group, made at any times, return what each one's own
metadata asks for and leave the members in place exactly if no member is a group that
chooses a node for one of them. -/
theorem relay_independent_iff (providers : List (List (Proxy μ))) (calls : List (Call μ)) :
    system.Always (Independent (getProvidersProxies providers)) (start providers) calls ↔
      ∀ a ∈ calls, Plain (getProvidersProxies providers) a := by
  have hkeeps : Keeps (getProvidersProxies providers) (start providers).relay
      (getProvidersProxies providers) := ⟨rfl, fun h => nomatch h⟩
  have hstart : Independent (getProvidersProxies providers) (start providers) := by
    constructor
    · intro m ps h
      cases h
    · intro now
      simp [start, Relay.new, Relay.rawProxies, Single.call, isFresh, Relay.makeSlice,
        Relay.elements, Relay.members]
  rw [← system.guarded_iff_forall (fun _ _ => rfl) (start providers)]
  let members := getProvidersProxies providers
  have hInv : ∀ (s : State μ) a t, Keeps members s.relay members → Independent members s →
      system.step s a = some t → Plain members a → Keeps members t.relay members := by
    intro s a t h _ hstep hplain
    cases hstep
    have hnext := (h.proxies a.metadata a.now).2.2
    rwa [(map_unwrapFully_eq_self_iff a.metadata members).mpr hplain] at hnext
  have hP : ∀ (s : State μ) a t, Keeps members s.relay members → Independent members s →
      system.step s a = some t → (Independent members t ↔ Plain members a) :=
    fun _ _ _ h _ hstep => independent_step_iff h hstep
  exact system.always_iff_guarded hInv hP calls hkeeps hstart

/-- A node, and a group that sends the connections with `true` to one node and the others
to another. -/
def node (ref : Nat) : Proxy Bool := .mk ref fun _ => none

def splitter : Proxy Bool := .mk 0 fun m => some (if m then node 1 else node 2)

/-- The second connection, a second later, is sent along the hops of the first. -/
theorem relay_hop_sticks :
    ∃ s, system.run (start [[splitter]]) [⟨true, 1000000000⟩, ⟨false, 2000000000⟩] = some s ∧
      s.last = some (false, some [node 1]) ∧
      [splitter].map (Proxy.unwrapFully false) = [node 2] ∧ ¬ Independent [splitter] s := by
  refine ⟨_, rfl, rfl, rfl, ?_⟩
  intro h
  have hhops := h.hops false _ rfl
  have href := congrArg (Option.map (List.map Proxy.ref)) hhops
  exact absurd href (by decide)

end RuleBaseProxy.OutboundGroup.RelayGroup
