import Mathlib.Data.List.Basic

/-! # Buffered channels

A channel is kept together with everything that was ever sent on it, so that what a receiver
has seen is a beginning of that.
-/

namespace Go

structure Channel (α : Type u) (cap : Nat) where
  sent : List α
  /-- How many of `sent` have been received. -/
  taken : Nat
  closed : Bool
  taken_le : taken ≤ sent.length
  le_cap : sent.length ≤ taken + cap

namespace Channel

variable {α : Type u} {cap : Nat}

def make (α : Type u) (cap : Nat) : Channel α cap := ⟨[], 0, false, Nat.le_refl 0, Nat.zero_le _⟩

/-- `none` where the sender waits, or panics since the channel is closed. -/
def send (c : Channel α cap) (a : α) : Option (Channel α cap) :=
  if h : c.closed = false ∧ c.sent.length < c.taken + cap then
    some
      { c with
        sent := c.sent ++ [a]
        taken_le := by
          rw [List.length_append]
          exact Nat.le_add_right_of_le c.taken_le
        le_cap := by
          rw [List.length_append]
          exact h.2 }
  else none

/-- `none` where the receiver waits, or the channel is closed and empty. -/
def receive (c : Channel α cap) : Option (α × Channel α cap) :=
  if h : c.taken < c.sent.length then
    some (c.sent[c.taken],
      { c with
        taken := c.taken + 1
        taken_le := h
        le_cap := by
          have hle := c.le_cap
          omega })
  else none

def ended (c : Channel α cap) : Bool := c.closed && c.taken == c.sent.length

def close (c : Channel α cap) : Channel α cap := { c with closed := true }

def isFull (c : Channel α cap) : Bool := c.sent.length == c.taken + cap

theorem send_eq_some {c d : Channel α cap} {a : α} (h : c.send a = some d) :
    c.closed = false ∧ d.sent = c.sent ++ [a] ∧ d.taken = c.taken ∧ d.closed = c.closed := by
  unfold send at h
  split at h
  case isTrue hopen =>
    cases h
    exact ⟨hopen.1, rfl, rfl, rfl⟩
  case isFalse => cases h

theorem receive_eq_some {c d : Channel α cap} {a : α} (h : c.receive = some (a, d)) :
    c.sent[c.taken]? = some a ∧ d.sent = c.sent ∧ d.taken = c.taken + 1 ∧
      d.closed = c.closed := by
  unfold receive at h
  split at h
  case isTrue hlt =>
    cases h
    exact ⟨List.getElem?_eq_getElem hlt, rfl, rfl, rfl⟩
  case isFalse => cases h

theorem exists_send {c : Channel α cap} (hopen : c.closed = false) (hroom : c.isFull = false)
    (a : α) : ∃ d, c.send a = some d := by
  have hlt : c.sent.length < c.taken + cap := by
    have hle := c.le_cap
    have hne : c.sent.length ≠ c.taken + cap := beq_eq_false_iff_ne.mp hroom
    omega
  exact ⟨_, dif_pos ⟨hopen, hlt⟩⟩

theorem send_of_isFull {c : Channel α cap} (h : c.isFull = true) (a : α) : c.send a = none := by
  have heq : c.sent.length = c.taken + cap := beq_iff_eq.mp h
  refine dif_neg ?_
  rintro ⟨-, hlt⟩
  omega

theorem exists_receive_of_lt {c : Channel α cap} (h : c.taken < c.sent.length) :
    ∃ a d, c.receive = some (a, d) :=
  ⟨_, _, dif_pos h⟩

theorem exists_send_receive {c : Channel α cap} (hopen : c.closed = false)
    (hempty : c.taken = c.sent.length) (hcap : 0 < cap) (a : α) :
    ∃ d d', c.send a = some d ∧ d.receive = some (a, d') ∧ d'.closed = false ∧
      d'.taken = d'.sent.length := by
  have hroom : c.isFull = false := beq_eq_false_iff_ne.mpr (by omega)
  obtain ⟨d, hsend⟩ := exists_send hopen hroom a
  obtain ⟨-, hsent, htaken, hclosed⟩ := send_eq_some hsend
  have hlt : d.taken < d.sent.length := by
    rw [hsent, htaken, List.length_append, hempty]
    exact Nat.lt_succ_self _
  obtain ⟨b, d', hreceive⟩ := exists_receive_of_lt hlt
  obtain ⟨hget, hsent', htaken', hclosed'⟩ := receive_eq_some hreceive
  rw [hsent, htaken, hempty, List.getElem?_concat_length] at hget
  cases hget
  refine ⟨d, d', hsend, hreceive, hclosed'.trans (hclosed.trans hopen), ?_⟩
  rw [htaken', htaken, hempty, hsent', hsent, List.length_append]
  rfl

/-- A full channel has an element for its receiver, and then room for one. -/
theorem exists_receive {c : Channel α cap} (h : c.isFull = true) (hcap : 0 < cap) :
    ∃ a d, c.receive = some (a, d) ∧ d.isFull = false ∧ d.closed = c.closed := by
  have heq : c.sent.length = c.taken + cap := beq_iff_eq.mp h
  obtain ⟨a, d, hreceive⟩ := exists_receive_of_lt (c := c) (by omega)
  obtain ⟨-, hsent, htaken, hclosed⟩ := receive_eq_some hreceive
  refine ⟨a, d, hreceive, beq_eq_false_iff_ne.mpr ?_, hclosed⟩
  rw [hsent, htaken]
  omega

end Channel

end Go
