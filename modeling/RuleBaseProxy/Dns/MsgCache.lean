import RuleBaseProxy.Common.LruCache
import RuleBaseProxy.Lib.GoDuration
import RuleBaseProxy.Lib.GoString

/-! # Cached DNS messages

`putMsgToCache` keeps a message as long as its first record lives, and a hit gives
every record of the message the time that is left. Instants are nanoseconds since
the epoch.
-/

namespace RuleBaseProxy.Dns

open Go Cache

structure RR where
  rrtype : UInt16
  ttl : UInt32
deriving DecidableEq

def typeOPT : UInt16 := 41

structure Msg where
  answer : List RR
  ns : List RR
  extra : List RR
deriving DecidableEq

def RR.setTtl (ttl : UInt32) (r : RR) : RR := { r with ttl := ttl }

def setMsgTTL (msg : Msg) (ttl : UInt32) : Msg where
  answer := msg.answer.map (RR.setTtl ttl)
  ns := msg.ns.map (RR.setTtl ttl)
  extra := msg.extra.map (RR.setTtl ttl)

/-- The resolver's cache: `WithSize(4096)`, `WithStale(true)`. -/
def cacheOptions : Options where
  maxAge := 0
  maxSize := 4096
  updateAgeOnGet := false
  staleReturn := true

/-- The record whose TTL `putMsgToCache` takes. -/
def Msg.first (msg : Msg) : Option RR :=
  match msg.answer, msg.ns, msg.extra with
  | r :: _, _, _ => some r
  | [], r :: _, _ => some r
  | [], [], r :: _ => some r
  | [], [], [] => none

def expiry (t : Nat) (ttl : UInt32) : Nat := (t + second * ttl.toNat) / second

def putMsgToCache (c : LruCache Str Msg) (key : Str) (msg : Msg) (t : Nat) : LruCache Str Msg :=
  match msg.first with
  | none => c
  | some r => c.setWithExpire cacheOptions (t / second) key msg (expiry t r.ttl)

inductive Lookup where
  | miss
  /-- Past its expiry; the message is fetched again. -/
  | stale (msg : Msg)
  | hit (msg : Msg)
deriving DecidableEq

/-- The cache in `ExchangeContext`, at the text of the question. The clock is read at
`now` for the expiry and by `time.Until` once more, at `later`. -/
def exchangeContext (c : LruCache Str Msg) (key : Str) (now later : Nat) :
    Lookup × LruCache Str Msg :=
  match c.get cacheOptions (now / second) key with
  | (none, c) => (.miss, c)
  | (some e, c) =>
      let expireTime := e.expires * second
      if expireTime < now then (.stale (setMsgTTL e.value 2), c)
      else (.hit (setMsgTTL e.value (uint32Seconds (expireTime - later : Int))), c)

inductive Op where
  | put (key : Str) (msg : Msg) (t : Nat)
  /-- `loadToDnsMap`, at one message of the database. -/
  | load (key : Str) (msg : Msg) (t : Nat)
  | exchange (key : Str) (now later : Nat)

def Op.apply (c : LruCache Str Msg) : Op → LruCache Str Msg
  | .put key msg t => putMsgToCache c key msg t
  | .load key msg t => c.setWithExpire cacheOptions (t / second) key msg (expiry t 3)
  | .exchange key now later => (exchangeContext c key now later).2

def Op.Spares (key : Str) : Op → Prop
  | .put k msg _ => k = key → msg.first = none
  | .load k _ _ => k ≠ key
  | .exchange _ _ _ => True

/-! ## An entry until it is replaced -/

section Entry

variable {c : LruCache Str Msg} {key : Str}

theorem shrinks_apply {op : Op} (h : op.Spares key) : LruCache.Shrinks (op.apply c) c key := by
  cases op with
  | put k msg t =>
      rw [Op.apply, putMsgToCache]
      cases hfirst : msg.first with
      | none => exact Or.inr rfl
      | some r =>
          have hk : key ≠ k := by
            intro heq
            cases (h heq.symm).symm.trans hfirst
          exact LruCache.shrinks_setWithExpire rfl _ _ _ hk
  | load k msg t => exact LruCache.shrinks_setWithExpire rfl _ _ _ (Ne.symm h)
  | exchange k now later =>
      refine Or.inr ?_
      have hget : (exchangeContext c k now later).2 = (c.get cacheOptions (now / second) k).2 := by
        unfold exchangeContext
        cases c.get cacheOptions (now / second) k with
        | mk found c' =>
            cases found with
            | none => rfl
            | some e => simp only; split <;> rfl
      rw [Op.apply, hget, LruCache.find_get rfl rfl]

/-- As long as nothing is stored under the key, the entry is there or evicted. -/
theorem shrinks_foldl {ops : List Op} (h : ∀ op ∈ ops, op.Spares key) :
    LruCache.Shrinks (ops.foldl Op.apply c) c key := by
  induction ops generalizing c with
  | nil => exact Or.inr rfl
  | cons op ops ih =>
      rcases ih (c := op.apply c) fun op' hop => h op' (List.mem_cons_of_mem _ hop) with hnone | heq
      · exact Or.inl hnone
      · rcases shrinks_apply (c := c) (h op List.mem_cons_self) with hnone | heq'
        · exact Or.inl (heq.trans hnone)
        · exact Or.inr (heq.trans heq')

theorem find_putMsgToCache {msg : Msg} {r : RR} (h : msg.first = some r) (t : Nat) :
    (putMsgToCache c key msg t).find key = some ⟨msg, expiry t r.ttl⟩ := by
  unfold putMsgToCache
  rw [h]
  exact LruCache.find_setWithExpire_self rfl _ _ _

theorem exchangeContext_fst (c : LruCache Str Msg) (key : Str) (now later : Nat) :
    (exchangeContext c key now later).1 =
      match c.find key with
      | none => .miss
      | some e =>
          if e.expires * second < now then .stale (setMsgTTL e.value 2)
          else .hit (setMsgTTL e.value (uint32Seconds (e.expires * second - later : Int))) := by
  have hget : (c.get cacheOptions (now / second) key).1 = c.find key := LruCache.get_fst rfl rfl _
  rw [← hget, exchangeContext]
  cases c.get cacheOptions (now / second) key with
  | mk found c' =>
      cases found with
      | none => rfl
      | some e =>
          push_cast
          split <;> rfl

end Entry

/-! ## Ageing

A hit is past its expiry if one of its two clock readings is.
-/

/-- The TTL of `r'` has gone down by the whole seconds elapsed. -/
def Aged (elapsed : Nat) (r r' : RR) : Prop :=
  r.rrtype ≠ typeOPT → r'.ttl.toNat ≤ r.ttl.toNat - elapsed / second

structure AgedMsg (elapsed : Nat) (msg msg' : Msg) : Prop where
  answer : List.Forall₂ (Aged elapsed) msg.answer msg'.answer
  ns : List.Forall₂ (Aged elapsed) msg.ns msg'.ns
  extra : List.Forall₂ (Aged elapsed) msg.extra msg'.extra

/-- Hits on the message put at `t₀` under `key`, kept until `expires`, whatever else the
cache is used for in the meantime. -/
def HitsAged (c : LruCache Str Msg) (key : Str) (msg : Msg) (t₀ expires : Nat) : Prop :=
  ∀ ops : List Op, (∀ op ∈ ops, op.Spares key) →
    ∀ now later msg', t₀ ≤ now → now ≤ later → later ≤ expires * second →
      (exchangeContext (ops.foldl Op.apply (putMsgToCache c key msg t₀)) key now later).1 =
        .hit msg' →
      AgedMsg (later - t₀) msg msg'

def Msg.records (msg : Msg) : List RR := msg.answer ++ msg.ns ++ msg.extra

/-- What a message loses of its TTL when the expiry is cut to whole seconds: one, unless
it is put on a whole second or the fraction is lost in the rounding of `Seconds`. -/
def cut (ttl : UInt32) (t₀ : Nat) : Nat :=
  if t₀ % second * 2 ^ 53 ≤ second * 2 ^ (ttl.toNat - 1).log2 then 0 else 1

/-- No record of the message lives shorter than the one with this TTL. -/
def ShortestLived (ttl : UInt32) (t₀ : Nat) (msg : Msg) : Prop :=
  ∀ r ∈ msg.records, r.rrtype ≠ typeOPT → ttl.toNat ≤ r.ttl.toNat + cut ttl t₀

theorem agedMsg_setMsgTTL_iff {elapsed : Nat} {msg : Msg} {ttl : UInt32} :
    AgedMsg elapsed msg (setMsgTTL msg ttl) ↔
      ∀ r ∈ msg.records, r.rrtype ≠ typeOPT → ttl.toNat ≤ r.ttl.toNat - elapsed / second := by
  have hsection : ∀ rs : List RR, List.Forall₂ (Aged elapsed) rs (rs.map (RR.setTtl ttl)) ↔
      ∀ r ∈ rs, r.rrtype ≠ typeOPT → ttl.toNat ≤ r.ttl.toNat - elapsed / second := by
    intro rs
    rw [List.forall₂_map_right_iff, List.forall₂_same]
    rfl
  constructor
  · rintro ⟨hanswer, hns, hextra⟩ r hr
    rcases List.mem_append.mp hr with hr | hr
    · rcases List.mem_append.mp hr with hr | hr
      · exact (hsection _).mp hanswer r hr
      · exact (hsection _).mp hns r hr
    · exact (hsection _).mp hextra r hr
  · intro h
    refine ⟨(hsection _).mpr fun r hr => h r ?_, (hsection _).mpr fun r hr => h r ?_,
      (hsection _).mpr fun r hr => h r ?_⟩ <;> simp [Msg.records, hr]

theorem expiry_eq (t₀ : Nat) (ttl : UInt32) : expiry t₀ ttl = t₀ / second + ttl.toNat :=
  Nat.add_mul_div_left t₀ _ second_pos

theorem expiry_sub (t₀ : Nat) (ttl : UInt32) :
    expiry t₀ ttl * second - t₀ = ttl.toNat * second - t₀ % second := by
  rw [expiry_eq, Nat.add_mul]
  have hsplit := Nat.div_add_mod t₀ second
  rw [Nat.mul_comm] at hsplit
  omega

/-- What a hit at the time of the put gives every record. -/
theorem wholeSeconds_expiry {ttl : UInt32} (hpos : 0 < ttl.toNat) (t₀ : Nat) :
    wholeSeconds (expiry t₀ ttl * second - t₀) + cut ttl t₀ = ttl.toNat := by
  obtain ⟨n, hn⟩ := Nat.exists_eq_add_of_lt hpos
  have hbound : n + 1 < 2 ^ 53 := by
    have := ttl.toNat_lt
    omega
  rw [Nat.zero_add] at hn
  rw [expiry_sub, cut, hn, Nat.add_sub_cancel,
    wholeSeconds_sub hbound (Nat.mod_lt _ second_pos)]
  split <;> rfl

section Hit

variable {msg : Msg} {r : RR} {key : Str} {c : LruCache Str Msg} {t₀ later : Nat}

/-- The TTL a hit gives, and the seconds elapsed, are within what a hit at the time of
the put gives. -/
theorem wholeSeconds_add_elapsed_le {expires : Nat} (h₀ : t₀ ≤ later)
    (hlater : later ≤ expires * second) :
    wholeSeconds (expires * second - later) + (later - t₀) / second ≤
      wholeSeconds (expires * second - t₀) := by
  refine (wholeSeconds_add_le _ _).trans (wholeSeconds_mono ?_)
  have hfloor := Nat.div_mul_le_self (later - t₀) second
  omega

theorem wholeSeconds_expiry_le (ttl : UInt32) (t₀ : Nat) :
    wholeSeconds (expiry t₀ ttl * second - t₀) ≤ ttl.toNat := by
  rcases Nat.eq_zero_or_pos ttl.toNat with hzero | hpos
  · rw [expiry_sub, hzero, Nat.zero_mul, Nat.zero_sub]
    decide
  · have := wholeSeconds_expiry hpos t₀
    omega

theorem toNat_ttl_hit {ttl : UInt32} (h₀ : t₀ ≤ later)
    (hlater : later ≤ expiry t₀ ttl * second) :
    (uint32Seconds (expiry t₀ ttl * second - later : Int)).toNat =
      wholeSeconds (expiry t₀ ttl * second - later) := by
  have hlt : wholeSeconds (expiry t₀ ttl * second - later) < 2 ^ 32 :=
    calc wholeSeconds (expiry t₀ ttl * second - later)
      _ ≤ wholeSeconds (expiry t₀ ttl * second - t₀) := wholeSeconds_mono (by omega)
      _ ≤ ttl.toNat := wholeSeconds_expiry_le ttl t₀
      _ < 2 ^ 32 := ttl.toNat_lt
  rw [← toNat_uint32Seconds hlt, Int.ofNat_sub hlater, Int.natCast_mul]

/-- Only the message put can be hit, until another one is stored. -/
theorem eq_of_hit {ops : List Op} {now : Nat} {msg' : Msg} (hfirst : msg.first = some r)
    (hops : ∀ op ∈ ops, op.Spares key)
    (hhit : (exchangeContext (ops.foldl Op.apply (putMsgToCache c key msg t₀)) key now later).1 =
      .hit msg') :
    msg' = setMsgTTL msg (uint32Seconds (expiry t₀ r.ttl * second - later : Int)) := by
  rcases shrinks_foldl (c := putMsgToCache c key msg t₀) hops with hnone | hsame
  · rw [exchangeContext_fst, hnone] at hhit
    cases hhit
  · rw [exchangeContext_fst, hsame, find_putMsgToCache hfirst] at hhit
    simp only at hhit
    split at hhit
    · cases hhit
    · cases hhit
      rfl

/-- Cached records never outlive their TTL exactly if none of them lives shorter than
the first. -/
theorem hitsAged_iff_shortestLived (c : LruCache Str Msg) (key : Str) (hfirst : msg.first = some r)
    (t₀ : Nat) : HitsAged c key msg t₀ (expiry t₀ r.ttl) ↔ ShortestLived r.ttl t₀ msg := by
  constructor
  · intro h x hx hopt
    rcases Nat.eq_zero_or_pos r.ttl.toNat with hzero | hpos
    · omega
    have hnow : t₀ ≤ expiry t₀ r.ttl * second := by
      have hfloor := Nat.lt_div_mul_add second_pos (a := t₀)
      have hone : second ≤ r.ttl.toNat * second := Nat.le_mul_of_pos_left _ hpos
      rw [expiry_eq, Nat.add_mul]
      omega
    have hhit := exchangeContext_fst (putMsgToCache c key msg t₀) key t₀ t₀
    rw [find_putMsgToCache hfirst] at hhit
    simp only [if_neg (Nat.not_lt.mpr hnow)] at hhit
    have haged := h [] (fun op hop => absurd hop List.not_mem_nil) t₀ t₀ _ le_rfl le_rfl hnow hhit
    have hle := agedMsg_setMsgTTL_iff.mp haged x hx hopt
    rw [toNat_ttl_hit le_rfl hnow, Nat.sub_self, Nat.zero_div, Nat.sub_zero] at hle
    have hput := wholeSeconds_expiry hpos t₀
    omega
  · intro h ops hops now later msg' hput hread hlater hhit
    rw [eq_of_hit hfirst hops hhit, agedMsg_setMsgTTL_iff]
    intro x hx hopt
    have h₀ : t₀ ≤ later := hput.trans hread
    have hshort := h x hx hopt
    have hle := wholeSeconds_add_elapsed_le h₀ hlater
    rw [toNat_ttl_hit h₀ hlater]
    rcases Nat.eq_zero_or_pos r.ttl.toNat with hzero | hpos
    · have hbound := wholeSeconds_expiry_le r.ttl t₀
      omega
    · have hexpiry := wholeSeconds_expiry hpos t₀
      omega

end Hit

/-- Two addresses with one TTL. -/
theorem hitsAged_iff_shortestLived_addresses :
    HitsAged .empty (str "a.com.") ⟨[⟨1, 60⟩, ⟨1, 60⟩], [], []⟩ 0 (expiry 0 60) :=
  (hitsAged_iff_shortestLived (r := ⟨1, 60⟩) _ _ rfl 0).mpr (by unfold ShortestLived; decide)

/-- An alias that lives for 300 s in front of an address that lives for 60: the address
is given out with a TTL of 300. -/
theorem address_outlives_behind_alias :
    ¬ HitsAged .empty (str "a.com.") ⟨[⟨5, 300⟩, ⟨1, 60⟩], [], []⟩ 0 (expiry 0 300) := by
  intro h
  have hhit : (exchangeContext (putMsgToCache .empty (str "a.com.")
      ⟨[⟨5, 300⟩, ⟨1, 60⟩], [], []⟩ 0) (str "a.com.") 0 0).1 =
      .hit ⟨[⟨5, 300⟩, ⟨1, 300⟩], [], []⟩ := by decide +kernel
  have haged := h [] (fun op hop => absurd hop List.not_mem_nil) 0 0 _ le_rfl le_rfl
    (Nat.zero_le _) hhit
  obtain ⟨-, haddress⟩ := List.forall₂_cons.mp haged.answer
  have hle := (List.forall₂_cons.mp haddress).1 (by decide)
  exact absurd hle (by decide)

end RuleBaseProxy.Dns
