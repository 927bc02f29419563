import RuleBaseProxy.Dns.MsgCache

/-! # The OPT record in the cache

An OPT record has no TTL: the field holds the extended RCODE, the version and the DO
flag. `putMsgToCache` and `setMsgTTL` do not look at the type of a record, so that the
field is taken for a lifetime and written over like any other.
-/

namespace RuleBaseProxy.Dns

open Go Cache

def Lookup.msg? : Lookup → Option Msg
  | .miss => none
  | .stale msg => some msg
  | .hit msg => some msg

def KeepsOPT (r r' : RR) : Prop := r.rrtype = typeOPT → r' = r

structure KeepsOPTs (msg msg' : Msg) : Prop where
  answer : List.Forall₂ KeepsOPT msg.answer msg'.answer
  ns : List.Forall₂ KeepsOPT msg.ns msg'.ns
  extra : List.Forall₂ KeepsOPT msg.extra msg'.extra

/-- OPT records of the message are left out of the reckoning with lifetimes. -/
structure IgnoresOPT (msg : Msg) : Prop where
  /-- The record whose TTL `putMsgToCache` takes is another one. -/
  lifetime : ∀ r, msg.first = some r → r.rrtype ≠ typeOPT
  /-- Whatever the cache that holds the message, and whenever it is looked up. -/
  lookups : ∀ (c : LruCache Str Msg) (key : Str) (expires now later : Nat) (msg' : Msg),
    c.find key = some ⟨msg, expires⟩ → now ≤ later →
    (exchangeContext c key now later).1.msg? = some msg' → KeepsOPTs msg msg'

theorem forall₂_setTtl_iff {rs : List RR} {ttl : UInt32} :
    List.Forall₂ KeepsOPT rs (rs.map (RR.setTtl ttl)) ↔
      ∀ r ∈ rs, r.rrtype = typeOPT → r.ttl = ttl := by
  rw [List.forall₂_map_right_iff, List.forall₂_same]
  constructor
  · intro h r hr hopt
    exact (congrArg RR.ttl (h r hr hopt)).symm
  · intro h r hr hopt
    rw [RR.setTtl, ← h r hr hopt]

theorem keepsOPTs_setMsgTTL_iff {msg : Msg} {ttl : UInt32} :
    KeepsOPTs msg (setMsgTTL msg ttl) ↔ ∀ r ∈ msg.records, r.rrtype = typeOPT → r.ttl = ttl := by
  constructor
  · intro h r hr
    rcases List.mem_append.mp hr with hr | hr
    · rcases List.mem_append.mp hr with hr | hr
      · exact forall₂_setTtl_iff.mp h.answer r hr
      · exact forall₂_setTtl_iff.mp h.ns r hr
    · exact forall₂_setTtl_iff.mp h.extra r hr
  · intro h
    have hmem : ∀ r, r ∈ msg.answer ∨ r ∈ msg.ns ∨ r ∈ msg.extra → r.rrtype = typeOPT → r.ttl = ttl := by
      intro r hr
      exact h r (by simpa [Msg.records] using hr)
    exact ⟨forall₂_setTtl_iff.mpr fun r hr => hmem r (Or.inl hr),
      forall₂_setTtl_iff.mpr fun r hr => hmem r (Or.inr (Or.inl hr)),
      forall₂_setTtl_iff.mpr fun r hr => hmem r (Or.inr (Or.inr hr))⟩

/-- A lookup gives every record of the message one TTL. -/
theorem msg?_exchangeContext {c : LruCache Str Msg} {key : Str} {msg : Msg} {expires : Nat}
    (h : c.find key = some ⟨msg, expires⟩) (now later : Nat) :
    (exchangeContext c key now later).1.msg? =
      some (setMsgTTL msg (if expires * second < now then 2
        else uint32Seconds (expires * second - later : Int))) := by
  rw [exchangeContext_fst, h]
  simp only
  split <;> rfl

theorem first_mem {msg : Msg} {r : RR} (h : msg.first = some r) : r ∈ msg.records := by
  unfold Msg.first at h
  split at h <;> simp_all [Msg.records]

theorem exists_first {msg : Msg} {r : RR} (h : r ∈ msg.records) : ∃ f, msg.first = some f := by
  cases hfirst : msg.first with
  | some f => exact ⟨f, rfl⟩
  | none =>
      unfold Msg.first at hfirst
      split at hfirst <;> simp_all [Msg.records]

/-- OPT records are ignored exactly if there are none: one that is cached is given the TTL 0 at
its expiry and 2 right after it. -/
theorem ignoresOPT_iff (msg : Msg) :
    IgnoresOPT msg ↔ ∀ r ∈ msg.records, r.rrtype ≠ typeOPT := by
  constructor
  · intro h r hr hopt
    rcases exists_first hr with ⟨f, hfirst⟩
    have hfind : (putMsgToCache .empty [] msg 0).find [] = some ⟨msg, expiry 0 f.ttl⟩ :=
      find_putMsgToCache hfirst 0
    have hlookup : ∀ now, r.ttl = if expiry 0 f.ttl * second < now then 2
        else uint32Seconds (expiry 0 f.ttl * second - now : Int) := by
      intro now
      have hkeeps := h.lookups _ [] _ now now _ hfind (Nat.le_refl now)
        (msg?_exchangeContext hfind now now)
      exact keepsOPTs_setMsgTTL_iff.mp hkeeps r hr hopt
    have hfresh := hlookup (expiry 0 f.ttl * second)
    have hstale := hlookup (expiry 0 f.ttl * second + 1)
    rw [if_neg (Nat.lt_irrefl _), Int.natCast_mul, Int.sub_self] at hfresh
    rw [if_pos (Nat.lt_succ_self _), hfresh] at hstale
    exact absurd hstale (by decide +kernel)
  · intro h
    refine ⟨fun r hfirst => h r (first_mem hfirst), ?_⟩
    intro c key expires now later msg' hfind _ hlookup
    rw [msg?_exchangeContext hfind] at hlookup
    cases hlookup
    rw [keepsOPTs_setMsgTTL_iff]
    intro r hr hopt
    exact absurd hopt (h r hr)

/-- An address that lives for 60 s and an OPT record with the DO flag: a hit returns the flag as
a TTL of 60. An OPT record alone is kept as many seconds as its flags say. -/
theorem opt_taken_for_ttl :
    ¬ IgnoresOPT ⟨[⟨1, 60⟩], [], [⟨typeOPT, 0x8000⟩]⟩ ∧
      (exchangeContext (putMsgToCache .empty (str "a.com.")
        ⟨[⟨1, 60⟩], [], [⟨typeOPT, 0x8000⟩]⟩ 0) (str "a.com.") 0 0).1 =
        .hit ⟨[⟨1, 60⟩], [], [⟨typeOPT, 60⟩]⟩ ∧
      (putMsgToCache .empty (str "a.com.") ⟨[], [], [⟨typeOPT, 0x8000⟩]⟩ 0).find (str "a.com.") =
        some ⟨⟨[], [], [⟨typeOPT, 0x8000⟩]⟩, 0x8000⟩ := by
  have hhit : (exchangeContext (putMsgToCache .empty (str "a.com.")
      ⟨[⟨1, 60⟩], [], [⟨typeOPT, 0x8000⟩]⟩ 0) (str "a.com.") 0 0).1 =
      .hit ⟨[⟨1, 60⟩], [], [⟨typeOPT, 60⟩]⟩ := by decide +kernel
  have hopt : Msg.first ⟨[], [], [⟨typeOPT, 0x8000⟩]⟩ = some ⟨typeOPT, 0x8000⟩ := rfl
  have haddr : Msg.first ⟨[⟨1, 60⟩], [], [⟨typeOPT, 0x8000⟩]⟩ = some ⟨1, 60⟩ := rfl
  have hkept : (putMsgToCache .empty (str "a.com.") ⟨[], [], [⟨typeOPT, 0x8000⟩]⟩ 0).find
      (str "a.com.") = some ⟨⟨[], [], [⟨typeOPT, 0x8000⟩]⟩, expiry 0 0x8000⟩ :=
    find_putMsgToCache hopt 0
  have hexpiry : expiry 0 0x8000 = 0x8000 := by decide +kernel
  rw [hexpiry] at hkept
  refine ⟨?_, hhit, hkept⟩
  intro h
  have hfind : (putMsgToCache .empty (str "a.com.") ⟨[⟨1, 60⟩], [], [⟨typeOPT, 0x8000⟩]⟩ 0).find
      (str "a.com.") = some ⟨⟨[⟨1, 60⟩], [], [⟨typeOPT, 0x8000⟩]⟩, expiry 0 60⟩ :=
    find_putMsgToCache haddr 0
  have hkeeps := h.lookups _ _ _ 0 0 _ hfind (Nat.le_refl 0) (congrArg Lookup.msg? hhit)
  exact absurd ((List.forall₂_cons.mp hkeeps.extra).1 rfl) (by decide)

end RuleBaseProxy.Dns
