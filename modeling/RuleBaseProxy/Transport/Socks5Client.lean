import RuleBaseProxy.Lib.SegmentedRun
import RuleBaseProxy.Transport.Socks5Handshake

/-! # What a SOCKS5 client takes for success

`ClientHandshake` checks the version and the method of the first reply, and the
status of the reply to its login. Of the reply to the request it reads `VER REP
RSV` and looks at none of them, so that a refusal that carries an address is
success to it.
-/

namespace RuleBaseProxy.Socks5

open Go Duplex

/-- What comes before the reply to the request: the choice of no authentication, or that of
a login and the answer to it with status 0. -/
inductive Greeting : Str → Prop where
  | noAuth : Greeting [5, 0]
  | login (x : UInt8) : Greeting [5, 2, x, 0]

def Granted (input : Str) (bound : Addr) (rest : Str) : Prop :=
  ∃ (greeting : Str) (rsv : UInt8) (t : Target), Greeting greeting ∧ bound = t.encode ∧
    input = greeting ++ ([5, 0, rsv] ++ (t.encode ++ rest))

/-- The length of the greeting, by the method the server has chosen. -/
def greetingLength (input : Str) : Nat := if input.getD 1 0 = 2 then 4 else 2

theorem Greeting.length_eq {greeting : Str} (h : Greeting greeting) (more : Str) :
    greetingLength (greeting ++ more) = greeting.length := by
  cases h with
  | noAuth => rfl
  | login x => rfl

/-! ## The stages of the client -/

theorem exec_clientReply_done {input rest out : Str} {bound : Addr}
    (h : clientReply.exec input = ⟨.done (.ok bound), rest, out⟩) :
    ∃ (ver rep rsv : UInt8) (t : Target), bound = t.encode ∧
      input = [ver, rep, rsv] ++ (t.encode ++ rest) := by
  rcases exec_read_done h with ⟨buf, input₁, hbuf, rfl, h₁⟩
  rcases List.length_eq_three.mp hbuf with ⟨ver, rep, rsv, rfl⟩
  rcases exec_readAddrFrom_done h₁ with ⟨t, input₂, rfl, h₂⟩ | ⟨input₂, h₂⟩
  · cases h₂
    exact ⟨ver, rep, rsv, t, rfl, rfl⟩
  · cases h₂

/-- A client that succeeds has read a greeting, three bytes and an address. -/
theorem exec_clientHandshake_input {addr bound : Addr} {command : Command}
    {user : Option (Str × Str)} {input rest out : Str}
    (h : (clientHandshake addr command user).exec input = ⟨.done (.ok bound), rest, out⟩) :
    ∃ (greeting : Str) (ver rep rsv : UInt8) (t : Target), Greeting greeting ∧ bound = t.encode ∧
      input = greeting ++ ([ver, rep, rsv] ++ (t.encode ++ rest)) := by
  rcases exec_write_done h with ⟨out₁, -, h₁⟩
  rcases exec_read_done h₁ with ⟨buf, input₁, hbuf, rfl, h₂⟩
  rcases List.length_eq_two.mp hbuf with ⟨x, y, rfl⟩
  split at h₂
  · cases h₂
  rename_i hx
  have hver : x = 5 := not_not.mp hx
  split at h₂
  · rename_i hy
    have hmethod : y = 2 := hy
    split at h₂
    · cases h₂
    · rcases exec_write_done h₂ with ⟨out₂, -, h₃⟩
      rcases exec_read_done h₃ with ⟨buf, input₂, hbuf, rfl, h₄⟩
      rcases List.length_eq_two.mp hbuf with ⟨z, status, rfl⟩
      split at h₄
      · cases h₄
      rename_i hz
      have hstatus : status = 0 := not_not.mp hz
      rcases exec_write_done h₄ with ⟨out₃, -, h₅⟩
      rcases exec_clientReply_done h₅ with ⟨ver, rep, rsv, t, hbound, rfl⟩
      subst hver hmethod hstatus
      exact ⟨_, ver, rep, rsv, t, .login z, hbound, rfl⟩
  split at h₂
  · cases h₂
  rename_i hy
  have hmethod : y = 0 := not_not.mp hy
  rcases exec_write_done h₂ with ⟨out₂, -, h₃⟩
  rcases exec_clientReply_done h₃ with ⟨ver, rep, rsv, t, hbound, rfl⟩
  subst hver hmethod
  exact ⟨_, ver, rep, rsv, t, .noAuth, hbound, rfl⟩

/-! ## Success and consent -/

/-- A client that succeeds, on segments of any lengths, has been granted its request exactly
if the bytes after the greeting are the version 5 and the reply code 0. -/
theorem clientHandshake_granted_iff {addr bound : Addr} {command : Command}
    {user : Option (Str × Str)} {segs segs' : List Str}
    (h : (clientHandshake addr command user).onConn segs = (.ok (.ok bound), segs')) :
    Granted segs.flatten bound segs'.flatten ↔
      [5, 0] <+: segs.flatten.drop (greetingLength segs.flatten) := by
  rcases exec_of_onConn h with ⟨out, hexec⟩
  rcases exec_clientHandshake_input hexec with
    ⟨greeting, ver, rep, rsv, t, hgreeting, hbound, hinput⟩
  have hdrop : segs.flatten.drop (greetingLength segs.flatten) =
      ver :: rep :: rsv :: (t.encode ++ segs'.flatten) := by
    rw [hinput, hgreeting.length_eq, List.drop_left]
    rfl
  rw [hdrop, List.cons_prefix_cons, List.cons_prefix_cons]
  constructor
  · rintro ⟨greeting', rsv', t', hgreeting', -, hinput'⟩
    have hdrop' : segs.flatten.drop (greetingLength segs.flatten) =
        5 :: 0 :: rsv' :: (t'.encode ++ segs'.flatten) := by
      rw [hinput', hgreeting'.length_eq, List.drop_left]
      rfl
    have hheads := hdrop.symm.trans hdrop'
    simp only [List.cons.injEq] at hheads
    exact ⟨hheads.1.symm, hheads.2.1.symm, List.nil_prefix⟩
  · rintro ⟨rfl, rfl, -⟩
    exact ⟨greeting, rsv, t, hgreeting, hbound, hinput⟩

/-- The server chooses no authentication and grants the request, in two segments. -/
theorem clientHandshake_granted_plain :
    Granted [5, 0, 5, 0, 0, 1, 127, 0, 0, 1, 4, 56] [1, 127, 0, 0, 1, 4, 56] [] := by
  have hok : (clientHandshake [1, 9, 9, 9, 9, 1, 187] .connect none).onConn
      [[5, 0, 5], [0, 0, 1, 127, 0, 0, 1, 4, 56]] =
        (.ok (.ok [1, 127, 0, 0, 1, 4, 56]), [[]]) := rfl
  exact (clientHandshake_granted_iff hok).mpr (by decide)

/-- The reply code 5 says that the connection was refused. -/
theorem clientHandshake_refused_succeeds :
    ((clientHandshake [1, 9, 9, 9, 9, 1, 187] .connect none).onConn
        [[5, 0], [5, 5, 0, 1, 0, 0, 0, 0, 0, 0]]).1 = .ok (.ok [1, 0, 0, 0, 0, 0, 0]) ∧
      ¬ ∃ rest, Granted [5, 0, 5, 5, 0, 1, 0, 0, 0, 0, 0, 0] [1, 0, 0, 0, 0, 0, 0] rest := by
  refine ⟨rfl, ?_⟩
  rintro ⟨rest, greeting, rsv, t, hgreeting, -, hinput⟩
  cases hgreeting with
  | noAuth => cases hinput
  | login x => cases hinput

end RuleBaseProxy.Socks5
