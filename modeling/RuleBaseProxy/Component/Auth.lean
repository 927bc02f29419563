import RuleBaseProxy.Lib.GoString
import RuleBaseProxy.Lib.Transition

/-! # Users and their passwords

`parseAuthentication` cuts each configured line at its first colon, so user
names have no colon and passwords may have some. `NewAuthenticator` stores the
users in a map, the last line of a name counting, and is nil without users.
-/

namespace RuleBaseProxy.Auth

open Go TransitionSystem

/-- `:`. -/
def colon : UInt8 := 58

structure AuthUser where
  user : Str
  pass : Str
deriving DecidableEq

abbrev Authenticator := Str → Str → Bool

/-- `strings.SplitN(line, sep, 2)`, where it gives two parts. -/
def cut (sep : UInt8) : Str → Option (Str × Str)
  | [] => none
  | b :: s => if b = sep then some ([], s) else (cut sep s).map fun (x, y) => (b :: x, y)

def parseAuthentication (rawRecords : List Str) : List AuthUser :=
  rawRecords.filterMap fun line => (cut colon line).map fun (user, pass) => ⟨user, pass⟩

def store (m : Str → Option Str) (u : AuthUser) : Str → Option Str :=
  Function.update m u.user (some u.pass)

/-- The map `storage` after the users have been stored one after another. -/
def storage (users : List AuthUser) : Str → Option Str := users.foldl store fun _ => none

def verify (storage : Str → Option Str) : Authenticator := fun user pass =>
  match storage user with
  | some realPass => realPass == pass
  | none => false

def newAuthenticator (users : List AuthUser) : Option Authenticator :=
  if users.length = 0 then none else some (verify (storage users))

/-! ## User names have no colon -/

theorem cut_eq_some {sep : UInt8} {s x y : Str} (h : cut sep s = some (x, y)) :
    s = x ++ sep :: y ∧ sep ∉ x := by
  induction s generalizing x with
  | nil => cases h
  | cons b s ih =>
      rw [cut] at h
      split at h
      · rename_i hb
        cases h
        exact ⟨by rw [hb, List.nil_append], List.not_mem_nil⟩
      · rename_i hb
        obtain ⟨⟨x', y'⟩, hcut, heq⟩ := Option.map_eq_some_iff.mp h
        cases heq
        obtain ⟨hs, hx⟩ := ih hcut
        refine ⟨by rw [hs, List.cons_append], ?_⟩
        rw [List.mem_cons, not_or]
        exact ⟨fun heq => hb heq.symm, hx⟩

theorem storage_foldl {users : List AuthUser} {m : Str → Option Str} {user pass : Str}
    (h : users.foldl store m user = some pass) :
    m user = some pass ∨ ⟨user, pass⟩ ∈ users := by
  induction users generalizing m with
  | nil => exact Or.inl h
  | cons u users ih =>
      obtain hm | hmem := ih h
      · obtain ⟨huser, hpass⟩ | ⟨-, hm⟩ := eq_or_of_update hm
        · refine Or.inr (List.mem_cons.mpr (Or.inl ?_))
          rw [huser, ← Option.some.inj hpass]
        · exact Or.inl hm
      · exact Or.inr (List.mem_cons_of_mem u hmem)

theorem mem_of_verify {users : List AuthUser} {user pass : Str}
    (h : verify (storage users) user pass = true) : ⟨user, pass⟩ ∈ users := by
  unfold verify at h
  split at h
  · rename_i realPass hstored
    rw [← beq_iff_eq.mp h]
    obtain hnone | hmem := storage_foldl hstored
    · cases hnone
    · exact hmem
  · cases h

theorem verify_of_newAuthenticator {users : List AuthUser} {au : Authenticator}
    (h : newAuthenticator users = some au) : au = verify (storage users) := by
  unfold newAuthenticator at h
  split at h
  · cases h
  · exact (Option.some.inj h).symm

/-- Whoever a configured authenticator accepts has no colon in the name. -/
theorem colon_not_mem_user {lines : List Str} {au : Authenticator} {user pass : Str}
    (hau : newAuthenticator (parseAuthentication lines) = some au)
    (h : au user pass = true) : colon ∉ user := by
  rw [verify_of_newAuthenticator hau] at h
  obtain ⟨line, -, hline⟩ := List.mem_filterMap.mp (mem_of_verify h)
  obtain ⟨⟨x, y⟩, hcut, heq⟩ := Option.map_eq_some_iff.mp hline
  cases heq
  exact (cut_eq_some hcut).2

end RuleBaseProxy.Auth
