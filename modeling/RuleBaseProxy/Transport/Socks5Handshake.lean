import RuleBaseProxy.Transport.Socks5
import RuleBaseProxy.Component.Auth
import RuleBaseProxy.Lib.Duplex

/-! # The SOCKS5 handshake

`ClientHandshake` and `ServerHandshake` as programs on a duplex stream. The
client writes the lengths of user name and password in one byte each, without
a check, and the server believes them. Names and passwords of up to 255 bytes
arrive as they are; beyond that the server reads another login out of the same
bytes, and what is left of them as the request.
-/

namespace RuleBaseProxy.Socks5

open Go Duplex

abbrev Script := Prog UInt8

/-- `ReadAddr` into a buffer of `MaxAddrLen` bytes; `none` is `ErrAddressNotSupported`. -/
def readAddrFrom {ρ : Type} (k : Option Addr → Script ρ) : Script ρ :=
  .read 1 fun b =>
    if b = [atypDomainName] then
      .read 1 fun l =>
        .read ((l.getD 0 0).toNat + 2) fun rest => k (some (b ++ l ++ rest))
    else if b = [atypIPv4] then .read (4 + 2) fun rest => k (some (b ++ rest))
    else if b = [atypIPv6] then .read (16 + 2) fun rest => k (some (b ++ rest))
    else k none

/-! ## The server -/

def cmdConnect : UInt8 := 1
def cmdUDPAssociate : UInt8 := 3

inductive ServerError where
  | auth
  | addressNotSupported
  | commandNotSupported

/-- What `ServerHandshake` returns, and the login it has verified on the way. -/
inductive ServerResult where
  | ok (addr : Addr) (command : UInt8) (verified : Option (Str × Str))
  | failed (err : ServerError)

/-- From `VER CMD RSV` on. `localAddr` is `rw.LocalAddr().String()`. -/
def serverRequest (localAddr : Str) (verified : Option (Str × Str)) : Script ServerResult :=
  .read 3 fun buf =>
    let command := buf.getD 1 0
    readAddrFrom fun addr =>
      match addr with
      | none => .done (.failed .addressNotSupported)
      | some addr =>
          if command = cmdConnect ∨ command = cmdUDPAssociate then
            match parseAddr localAddr with
            | none => .done (.failed .addressNotSupported)
            | some a => .write ([5, 0, 0] ++ a) (.done (.ok addr command verified))
          else .done (.failed .commandNotSupported)

/-- The user name and password sub-negotiation. -/
def serverAuth (authenticator : Auth.Authenticator) (localAddr : Str) : Script ServerResult :=
  .read 2 fun header =>
    let userLen := (header.getD 1 0).toNat
    if userLen = 0 then .write [1, 1] (.done (.failed .auth))
    else
      .read userLen fun user =>
        .read 1 fun header =>
          let passLen := (header.getD 0 0).toNat
          if passLen = 0 then .write [1, 1] (.done (.failed .auth))
          else
            .read passLen fun pass =>
              if authenticator user pass then
                .write [1, 0] (serverRequest localAddr (some (user, pass)))
              else .write [1, 1] (.done (.failed .auth))

def serverHandshake (authenticator : Option Auth.Authenticator) (localAddr : Str) :
    Script ServerResult :=
  .read 2 fun buf =>
    .read (buf.getD 1 0).toNat fun _ =>
      match authenticator with
      | some au => .write [5, 2] (serverAuth au localAddr)
      | none => .write [5, 0] (serverRequest localAddr none)

/-! ## The client -/

inductive Command where
  | connect
  | udpAssociate

def Command.byte : Command → UInt8
  | .connect => cmdConnect
  | .udpAssociate => cmdUDPAssociate

inductive ClientResult where
  | ok (addr : Addr)
  | failed

def request (addr : Addr) (command : Command) : Str := [5, command.byte, 0] ++ addr

/-- The message of the sub-negotiation; the lengths are cut to a byte. -/
def authMsg (username password : Str) : Str :=
  [1, UInt8.ofNat username.length] ++ username ++ [UInt8.ofNat password.length] ++ password

/-- `VER REP RSV` and the bound address; the reply code is not looked at. -/
def clientReply : Script ClientResult :=
  .read 3 fun _ =>
    readAddrFrom fun addr =>
      match addr with
      | some addr => .done (.ok addr)
      | none => .done .failed

def clientRequest (addr : Addr) (command : Command) : Script ClientResult :=
  .write (request addr command) clientReply

def clientVerdict (addr : Addr) (command : Command) : Script ClientResult :=
  .read 2 fun buf =>
    if buf.getD 1 0 ≠ 0 then .done .failed else clientRequest addr command

def clientHandshake (addr : Addr) (command : Command) (user : Option (Str × Str)) :
    Script ClientResult :=
  .write (if user.isSome then [5, 1, 2] else [5, 1, 0])
    (.read 2 fun buf =>
      if buf.getD 0 0 ≠ 5 then .done .failed
      else if buf.getD 1 0 = 2 then
        match user with
        | none => .done .failed
        | some (username, password) =>
            .write (authMsg username password) (clientVerdict addr command)
      else if buf.getD 1 0 ≠ 0 then .done .failed
      else clientRequest addr command)

/-! ## Addresses on the stream -/

theorem exec_readAddrFrom {ρ : Type} (k : Option Addr → Script ρ) (t : Target) (input : Str) :
    (readAddrFrom k).exec (t.encode ++ input) = (k (some t.encode)).exec input := by
  obtain ⟨dest, hi, lo⟩ := t
  cases dest with
  | ipv4 ip h =>
      have hrest : (ip ++ [hi, lo]).length = 4 + 2 := by simp [h]
      have hsplit : (Target.mk (.ipv4 ip h) hi lo).encode ++ input =
          [atypIPv4] ++ ((ip ++ [hi, lo]) ++ input) := by simp [Target.encode, Dest.encode]
      rw [readAddrFrom, hsplit, exec_read_append _ List.length_singleton, if_neg (by decide), if_pos rfl,
        exec_read_append _ hrest]
      rfl
  | ipv6 ip h =>
      have hrest : (ip ++ [hi, lo]).length = 16 + 2 := by simp [h]
      have hsplit : (Target.mk (.ipv6 ip h) hi lo).encode ++ input =
          [atypIPv6] ++ ((ip ++ [hi, lo]) ++ input) := by simp [Target.encode, Dest.encode]
      rw [readAddrFrom, hsplit, exec_read_append _ List.length_singleton, if_neg (by decide), if_neg (by decide),
        if_pos rfl, exec_read_append _ hrest]
      rfl
  | domainName name h =>
      have hrest : (name ++ [hi, lo]).length =
          (([UInt8.ofNat name.length] : List UInt8).getD 0 0).toNat + 2 := by
        have hlen := toNat_ofNat_length h
        simp only [List.length_append, List.getD_cons_zero, hlen]
        rfl
      have hsplit : (Target.mk (.domainName name h) hi lo).encode ++ input =
          [atypDomainName] ++ ([UInt8.ofNat name.length] ++ ((name ++ [hi, lo]) ++ input)) := by
        simp [Target.encode, Dest.encode]
      rw [readAddrFrom, hsplit, exec_read_append _ List.length_singleton, if_pos rfl,
        exec_read_append _ List.length_singleton, exec_read_append _ hrest]
      simp [Target.encode, Dest.encode]

/-- Whoever comes to an end after `ReadAddr` has read the encoding of a target,
or a type it does not support. -/
theorem exec_readAddrFrom_done {ρ : Type} {k : Option Addr → Script ρ} {input rest out : Str}
    {r : ρ} (h : (readAddrFrom k).exec input = ⟨.done r, rest, out⟩) :
    (∃ (t : Target) (input' : Str), input = t.encode ++ input' ∧
      (k (some t.encode)).exec input' = ⟨.done r, rest, out⟩) ∨
    ∃ input', (k none).exec input' = ⟨.done r, rest, out⟩ := by
  obtain ⟨b, input₁, -, rfl, h₁⟩ := exec_read_done h
  split at h₁
  · rename_i hatyp
    obtain ⟨l, input₂, hl, rfl, h₂⟩ := exec_read_done h₁
    obtain ⟨addr, input₃, haddr, rfl, h₃⟩ := exec_read_done h₂
    obtain ⟨len, rfl⟩ := List.length_eq_one_iff.mp hl
    obtain ⟨name, hi, lo, rfl, hname⟩ := exists_port haddr
    have hlen : name.length = len.toNat := hname
    have hlt := len.toNat_lt
    refine Or.inl ⟨⟨.domainName name (by omega), hi, lo⟩, input₃, ?_, ?_⟩
    · simp [Target.encode, Dest.encode, hatyp, hlen]
    · simpa [Target.encode, Dest.encode, hatyp, hlen] using h₃
  split at h₁
  · rename_i hatyp
    obtain ⟨addr, input₂, haddr, rfl, h₂⟩ := exec_read_done h₁
    obtain ⟨ip, hi, lo, rfl, hip⟩ := exists_port haddr
    refine Or.inl ⟨⟨.ipv4 ip hip, hi, lo⟩, input₂, by simp [Target.encode, Dest.encode, hatyp], ?_⟩
    simpa [Target.encode, Dest.encode, hatyp] using h₂
  split at h₁
  · rename_i hatyp
    obtain ⟨addr, input₂, haddr, rfl, h₂⟩ := exec_read_done h₁
    obtain ⟨ip, hi, lo, rfl, hip⟩ := exists_port haddr
    refine Or.inl ⟨⟨.ipv6 ip hip, hi, lo⟩, input₂, by simp [Target.encode, Dest.encode, hatyp], ?_⟩
    simpa [Target.encode, Dest.encode, hatyp] using h₂
  · exact Or.inr ⟨input₁, h₁⟩

/-! ## Requests and logins on the stream -/

def Supported (command : UInt8) : Prop := command = cmdConnect ∨ command = cmdUDPAssociate

theorem Command.supported (command : Command) : Supported command.byte := by
  cases command with
  | connect => exact Or.inl rfl
  | udpAssociate => exact Or.inr rfl

theorem exec_serverRequest {localAddr : Str} {a : Addr} (hlocal : parseAddr localAddr = some a)
    (verified : Option (Str × Str)) {x c y : UInt8} (hc : Supported c) (t : Target) (input : Str) :
    (serverRequest localAddr verified).exec ([x, c, y] ++ (t.encode ++ input)) =
      ⟨.done (.ok t.encode c verified), input, [5, 0, 0] ++ a⟩ := by
  have hcmd : ([x, c, y] : List UInt8).getD 1 0 = c := rfl
  have hlen : ([x, c, y] : List UInt8).length = 3 := rfl
  rw [serverRequest, exec_read_append _ hlen]
  simp only [hcmd]
  rw [exec_readAddrFrom]
  simp only [hlocal]
  rw [if_pos (show c = cmdConnect ∨ c = cmdUDPAssociate from hc), exec_write, exec_done,
    Standing.emit, List.append_nil]

/-- A request that was answered: a supported command and the encoding of a target. -/
theorem exec_serverRequest_done {localAddr input rest out : Str} {verified v : Option (Str × Str)}
    {addr : Addr} {c : UInt8}
    (h : (serverRequest localAddr verified).exec input = ⟨.done (.ok addr c v), rest, out⟩) :
    ∃ (x y : UInt8) (t : Target) (a : Addr), input = [x, c, y] ++ (t.encode ++ rest) ∧
      Supported c ∧ addr = t.encode ∧ v = verified ∧ parseAddr localAddr = some a ∧
      out = [5, 0, 0] ++ a := by
  obtain ⟨buf, input₁, hbuf, rfl, h₁⟩ := exec_read_done h
  obtain ⟨x, c', y, rfl⟩ := List.length_eq_three.mp hbuf
  obtain ⟨t, input₂, rfl, h₂⟩ | ⟨input₂, h₂⟩ := exec_readAddrFrom_done h₁
  · simp only at h₂
    split at h₂
    · rename_i hc
      split at h₂
      · cases h₂
      · rename_i a hlocal
        cases h₂
        exact ⟨x, y, t, a, rfl, hc, rfl, rfl, hlocal, by simp⟩
    · cases h₂
  · cases h₂

theorem exec_clientReply {buf : Str} (hbuf : buf.length = 3) (t : Target) (input : Str) :
    clientReply.exec (buf ++ (t.encode ++ input)) = ⟨.done (.ok t.encode), input, []⟩ := by
  rw [clientReply, exec_read_append _ hbuf, exec_readAddrFrom, exec_done]

theorem exec_clientRequest_done {addr b : Addr} {command : Command} {input rest out : Str}
    (h : (clientRequest addr command).exec input = ⟨.done (.ok b), rest, out⟩) :
    out = request addr command := by
  obtain ⟨out', rfl, h₁⟩ := exec_write_done h
  obtain ⟨_, input₁, -, -, h₂⟩ := exec_read_done h₁
  obtain ⟨t, input₂, -, h₃⟩ | ⟨input₂, h₃⟩ := exec_readAddrFrom_done h₂
  · cases h₃
    rw [List.append_nil]
  · cases h₃

/-- What the server takes for a login: lengths of one byte, neither of them zero. -/
def FitsByte (s : Str) : Prop := s ≠ [] ∧ s.length < 256

theorem FitsByte.toNat_ofNat {s : Str} (h : FitsByte s) : (UInt8.ofNat s.length).toNat = s.length :=
  toNat_ofNat_length h.2

theorem exec_serverAuth {au : Auth.Authenticator} {localAddr user pass : Str} (huser : FitsByte user)
    (hpass : FitsByte pass) (hau : au user pass = true) (x : UInt8) (input : Str) :
    (serverAuth au localAddr).exec
      ([x, UInt8.ofNat user.length] ++ (user ++ ([UInt8.ofNat pass.length] ++ (pass ++ input)))) =
      ((serverRequest localAddr (some (user, pass))).exec input).emit [1, 0] := by
  have huserLen : (([x, UInt8.ofNat user.length] : List UInt8).getD 1 0).toNat = user.length :=
    huser.toNat_ofNat
  have hpassLen : (([UInt8.ofNat pass.length] : List UInt8).getD 0 0).toNat = pass.length :=
    hpass.toNat_ofNat
  have hlen : ([x, UInt8.ofNat user.length] : List UInt8).length = 2 := rfl
  rw [serverAuth, exec_read_append _ hlen]
  simp only [huserLen, List.length_eq_zero_iff, huser.1, if_false]
  rw [exec_read_append _ rfl, exec_read_append _ List.length_singleton]
  simp only [hpassLen, List.length_eq_zero_iff, hpass.1, if_false]
  rw [exec_read_append _ rfl]
  simp only [hau, if_true, exec_write]

/-- A login that was accepted, and what the server goes on with. -/
theorem exec_serverAuth_done {au : Auth.Authenticator} {localAddr input rest out : Str}
    {addr : Addr} {c : UInt8} {v : Option (Str × Str)}
    (h : (serverAuth au localAddr).exec input = ⟨.done (.ok addr c v), rest, out⟩) :
    ∃ (x : UInt8) (user pass input' out' : Str), FitsByte user ∧ FitsByte pass ∧
      au user pass = true ∧
      input = [x, UInt8.ofNat user.length] ++
        (user ++ ([UInt8.ofNat pass.length] ++ (pass ++ input'))) ∧
      out = [1, 0] ++ out' ∧
      (serverRequest localAddr (some (user, pass))).exec input' =
        ⟨.done (.ok addr c v), rest, out'⟩ := by
  obtain ⟨header, input₁, hheader, rfl, h₁⟩ := exec_read_done h
  obtain ⟨x, userLen, rfl⟩ := List.length_eq_two.mp hheader
  simp only at h₁
  split at h₁
  · cases h₁
  rename_i huserLen
  obtain ⟨user, input₂, huser, rfl, h₂⟩ := exec_read_done h₁
  obtain ⟨header, input₃, hheader, rfl, h₃⟩ := exec_read_done h₂
  obtain ⟨passLen, rfl⟩ := List.length_eq_one_iff.mp hheader
  split at h₃
  · cases h₃
  rename_i hpassLen
  obtain ⟨pass, input₄, hpass, rfl, h₄⟩ := exec_read_done h₃
  split at h₄
  · rename_i hau
    obtain ⟨out', rfl, h₅⟩ := exec_write_done h₄
    have hu : user.length = userLen.toNat := huser
    have hp : pass.length = passLen.toNat := hpass
    have hfits : ∀ {s : Str} {l : UInt8}, s.length = l.toNat → ¬ l.toNat = 0 → FitsByte s := by
      intro s l hs hl
      exact ⟨fun hnil => hl (by rw [← hs, hnil]; rfl), hs ▸ l.toNat_lt⟩
    refine ⟨x, user, pass, input₄, out', hfits hu huserLen, hfits hp hpassLen, hau, ?_, rfl, h₅⟩
    rw [hu, hp, UInt8.ofNat_toNat, UInt8.ofNat_toNat]
  · obtain ⟨_, -, h₅⟩ := exec_write_done h₄
    cases h₅

/-! ## Each side as a whole -/

/-- What a client that succeeds has written, by the method the server chose. -/
theorem exec_clientHandshake_done {addr b : Addr} {command : Command} {user : Option (Str × Str)}
    {input rest out : Str}
    (h : (clientHandshake addr command user).exec input = ⟨.done (.ok b), rest, out⟩) :
    ∃ (m x y : UInt8) (input' : Str), input = [x, y] ++ input' ∧
      (y = 2 ∧ (∃ username password, user = some (username, password) ∧
          out = [5, 1, m] ++ (authMsg username password ++ request addr command)) ∨
        y = 0 ∧ out = [5, 1, m] ++ request addr command) := by
  obtain ⟨out₁, rfl, h₁⟩ := exec_write_done h
  obtain ⟨m, hm⟩ : ∃ m : UInt8, (if user.isSome then [5, 1, 2] else [5, 1, 0]) = [5, 1, m] := by
    split
    · exact ⟨2, rfl⟩
    · exact ⟨0, rfl⟩
  obtain ⟨buf, input₁, hbuf, rfl, h₂⟩ := exec_read_done h₁
  obtain ⟨x, y, rfl⟩ := List.length_eq_two.mp hbuf
  refine ⟨m, x, y, input₁, rfl, ?_⟩
  rw [hm]
  split at h₂
  · cases h₂
  split at h₂
  · rename_i hy
    refine Or.inl ⟨hy, ?_⟩
    split at h₂
    · cases h₂
    · rename_i username password
      obtain ⟨out₂, rfl, h₃⟩ := exec_write_done h₂
      obtain ⟨_, input₂, -, rfl, h₄⟩ := exec_read_done h₃
      split at h₄
      · cases h₄
      · exact ⟨username, password, rfl, by rw [exec_clientRequest_done h₄]⟩
  split at h₂
  · cases h₂
  · rename_i hy
    exact Or.inr ⟨not_not.mp hy, by rw [exec_clientRequest_done h₂]⟩

theorem exec_serverHandshake_none {localAddr : Str} (m : UInt8) (input : Str) :
    (serverHandshake none localAddr).exec ([5, 1, m] ++ input) =
      (Prog.write [5, 0] (serverRequest localAddr none)).exec input := rfl

theorem exec_serverHandshake_some {au : Auth.Authenticator} {localAddr : Str} (m : UInt8)
    (input : Str) :
    (serverHandshake (some au) localAddr).exec ([5, 1, m] ++ input) =
      (Prog.write [5, 2] (serverAuth au localAddr)).exec input := rfl

/-! ## The login that the server reads -/

theorem ofNat_length_inj {s s' : Str} (hs' : s'.length < 256)
    (h : UInt8.ofNat s.length = UInt8.ofNat s'.length) : s.length % 256 = s'.length := by
  have hnat := congrArg UInt8.toNat h
  simp only [UInt8.toNat_ofNat'] at hnat
  omega

/-- The first part of one splitting is the shorter one: the rest of the other begins with
what it lacks. -/
theorem append_split {a b c d : Str} (h : a ++ b = c ++ d) (hlen : c.length ≤ a.length) :
    ∃ left, a = c ++ left ∧ d = left ++ b := by
  obtain ⟨left, rfl⟩ : c <+: a :=
    List.prefix_of_prefix_length_le ⟨d, h.symm⟩ (List.prefix_append a b) hlen
  rw [List.append_assoc] at h
  exact ⟨left, rfl, (List.append_cancel_left h).symm⟩

/-- The server reads the client's login, or, behind a length that does not fit
a byte, another one from the beginning of the same bytes. -/
theorem authMsg_reading {username password user pass more input : Str} {x : UInt8}
    (huser : FitsByte user) (hpass : FitsByte pass)
    (h : authMsg username password ++ more = [x, UInt8.ofNat user.length] ++
      (user ++ ([UInt8.ofNat pass.length] ++ (pass ++ input)))) :
    user = username ∧ pass = password ∧ input = more ∨
    (255 < username.length ∨ 255 < password.length) ∧
      ∃ left, authMsg username password = authMsg user pass ++ left ∧ input = left ++ more := by
  have hcons : 1 :: UInt8.ofNat username.length ::
      (username ++ ([UInt8.ofNat password.length] ++ (password ++ more))) =
        x :: UInt8.ofNat user.length ::
          (user ++ ([UInt8.ofNat pass.length] ++ (pass ++ input))) := by
    simpa [authMsg] using h
  obtain ⟨-, htail⟩ := List.cons.inj hcons
  obtain ⟨huserLen, htail⟩ := List.cons.inj htail
  have hmodUser := ofNat_length_inj huser.2 huserLen
  by_cases hlong : 255 < username.length
  · have hlen : (user ++ ([UInt8.ofNat pass.length] ++ pass)).length ≤ username.length := by
      have := hpass.2
      simp only [List.length_append, List.length_singleton]
      omega
    have hassoc : username ++ ([UInt8.ofNat password.length] ++ (password ++ more)) =
        (user ++ ([UInt8.ofNat pass.length] ++ pass)) ++ input := by
      simpa using htail
    obtain ⟨left, hname, hinput⟩ := append_split hassoc hlen
    refine Or.inr ⟨Or.inl hlong, left ++ ([UInt8.ofNat password.length] ++ password), ?_, ?_⟩
    · rw [authMsg, huserLen]
      conv_lhs => rw [hname]
      simp [authMsg]
    · rw [hinput]
      simp
  · have hsame : username.length = user.length := by omega
    obtain ⟨rfl, hrest⟩ := List.append_inj htail hsame
    obtain ⟨hpassLen, hpasses⟩ : UInt8.ofNat password.length = UInt8.ofNat pass.length ∧
        password ++ more = pass ++ input := List.cons.inj hrest
    have hmodPass := ofNat_length_inj hpass.2 hpassLen
    by_cases hlongPass : 255 < password.length
    · obtain ⟨left, hpassword, hinput⟩ := append_split hpasses (by omega)
      refine Or.inr ⟨Or.inr hlongPass, left, ?_, hinput⟩
      rw [authMsg, hpassLen]
      conv_lhs => rw [hpassword]
      simp [authMsg]
    · obtain ⟨rfl, hmore⟩ := List.append_inj hpasses (by omega)
      exact Or.inl ⟨rfl, rfl, hmore.symm⟩

/-! ## When the two sides agree -/

section Agreement

variable (authenticator : Option Auth.Authenticator) (user : Option (Str × Str)) (target : Target)
  (command : Command) (localAddr : Str)

/-- Whenever both sides return success, in whatever order they took their
steps, the server has the client's address and command, and has verified the
client's login if it verifies any. -/
def Agrees : Prop :=
  ∀ as s b addr c verified,
    network.run (connect (clientHandshake target.encode command user)
      (serverHandshake authenticator localAddr)) as = some s →
    s.client = .done (.ok b) → s.server = .done (.ok addr c verified) →
      addr = target.encode ∧ c = command.byte ∧
        ∀ au, authenticator = some au → ∃ login, user = some login ∧ verified = some login

/-- A name or password is longer than 255 bytes, and the client's bytes are at
the same time a login that the authenticator accepts, followed by a request. -/
def Misread : Prop :=
  ∃ au username password, authenticator = some au ∧ user = some (username, password) ∧
    (255 < username.length ∨ 255 < password.length) ∧ (parseAddr localAddr).isSome ∧
    ∃ (user' pass' left rest : Str) (x c y : UInt8) (t : Target),
      FitsByte user' ∧ FitsByte pass' ∧ au user' pass' = true ∧
      authMsg username password = authMsg user' pass' ++ left ∧ Supported c ∧
      left ++ request target.encode command = [x, c, y] ++ (t.encode ++ rest)

variable {authenticator user target command localAddr}

/-- Where the server reads the client's own request it gets what was asked for. -/
theorem serverRequest_own {verified v : Option (Str × Str)} {addr : Addr} {c : UInt8}
    {rest out : Str}
    (h : (serverRequest localAddr verified).exec (request target.encode command) =
      ⟨.done (.ok addr c v), rest, out⟩) :
    addr = target.encode ∧ c = command.byte ∧ v = verified := by
  obtain ⟨_, _, _, a, -, -, -, -, hlocal, -⟩ := exec_serverRequest_done h
  have hown := exec_serverRequest hlocal verified (x := 5) (y := 0) command.supported target []
  rw [List.append_nil] at hown
  cases hown.symm.trans h
  exact ⟨rfl, rfl, rfl⟩

theorem agrees_of_not_misread (h : ¬ Misread authenticator user target command localAddr) :
    Agrees authenticator user target command localAddr := by
  intro as s b addr c verified hrun hclient hserver
  obtain ⟨sent, received, hc, hs⟩ := exec_of_run_done hrun hclient hserver
  obtain ⟨m, x, y, received', hreceived, hsent⟩ := exec_clientHandshake_done hc
  cases authenticator with
  | none =>
      obtain ⟨hy, username, password, -, rfl⟩ | ⟨-, rfl⟩ := hsent
      · rw [exec_serverHandshake_none] at hs
        obtain ⟨out, hout, -⟩ := exec_write_done hs
        rw [hreceived, hy] at hout
        cases hout
      · rw [exec_serverHandshake_none] at hs
        obtain ⟨out, -, hs⟩ := exec_write_done hs
        obtain ⟨haddr, hcommand, -⟩ := serverRequest_own hs
        exact ⟨haddr, hcommand, nofun⟩
  | some au =>
      obtain ⟨-, username, password, rfl, rfl⟩ | ⟨hy, rfl⟩ := hsent
      · rw [exec_serverHandshake_some] at hs
        obtain ⟨out, -, hs⟩ := exec_write_done hs
        obtain ⟨_, user', pass', input, out', huser, hpass, hau, hinput, -, hs⟩ :=
          exec_serverAuth_done hs
        obtain ⟨rfl, rfl, rfl⟩ | ⟨hlong, left, hleft, rfl⟩ := authMsg_reading huser hpass hinput
        · obtain ⟨haddr, hcommand, hverified⟩ := serverRequest_own hs
          exact ⟨haddr, hcommand, fun _ _ => ⟨_, rfl, hverified⟩⟩
        · obtain ⟨x', y', t, a, hrequest, hsupported, -, -, hlocal, -⟩ := exec_serverRequest_done hs
          exact absurd ⟨au, username, password, rfl, rfl, hlong, by rw [hlocal]; rfl, user', pass',
            left, _, x', c, y', t, huser, hpass, hau, hleft, hsupported, hrequest⟩ h
      · rw [exec_serverHandshake_some] at hs
        obtain ⟨out, hout, -⟩ := exec_write_done hs
        rw [hreceived, hy] at hout
        cases hout

/-- A run in which the server takes another login and another request out of
the client's bytes. -/
theorem reaches_misread {au : Auth.Authenticator} {username password user' pass' left rest : Str}
    {x c y : UInt8} {t l : Target} (huser : FitsByte user') (hpass : FitsByte pass')
    (hau : au user' pass' = true)
    (hleft : authMsg username password = authMsg user' pass' ++ left) (hc : Supported c)
    (hrequest : left ++ request target.encode command = [x, c, y] ++ (t.encode ++ rest))
    (hlocal : parseAddr localAddr = some l.encode) :
    Reaches
      (connect (clientHandshake target.encode command (some (username, password)))
        (serverHandshake (some au) localAddr))
      ⟨.done (.ok l.encode), .done (.ok t.encode c (some (user', pass'))), [], rest⟩ := by
  have hgreeted : Reaches
      (connect (clientHandshake target.encode command (some (username, password)))
        (serverHandshake (some au) localAddr))
      ⟨clientVerdict target.encode command, serverAuth au localAddr, [],
        authMsg username password ++ []⟩ := by
    refine (reaches_client _ _ [] [] []).trans ?_
    refine (reaches_server _ _ [] [5, 1, 2] []).trans ?_
    exact reaches_client _ _ [5, 2] [] []
  have hauth : (serverAuth au localAddr).exec (authMsg user' pass') =
      ⟨serverRequest localAddr (some (user', pass')), [], [1, 0]⟩ := by
    have hwait : (serverRequest localAddr (some (user', pass'))).exec [] =
        ⟨serverRequest localAddr (some (user', pass')), [], []⟩ := rfl
    have hmsg : authMsg user' pass' = [1, UInt8.ofNat user'.length] ++
        (user' ++ ([UInt8.ofNat pass'.length] ++ (pass' ++ []))) := by simp [authMsg]
    rw [hmsg, exec_serverAuth huser hpass hau, hwait]
    rfl
  have hlogin := reaches_server (clientVerdict target.encode command) (serverAuth au localAddr) []
    (authMsg user' pass') left
  rw [hauth, ← hleft] at hlogin
  have hverdict : Reaches
      (⟨clientVerdict target.encode command, serverRequest localAddr (some (user', pass')), [1, 0],
        left⟩ : Net UInt8 ClientResult ServerResult)
      ⟨clientReply, serverRequest localAddr (some (user', pass')), [],
        left ++ (request target.encode command ++ [])⟩ :=
    reaches_client _ _ [1, 0] [] left
  have hrequested := reaches_server clientReply (serverRequest localAddr (some (user', pass'))) []
    (left ++ request target.encode command) []
  have hexec : (serverRequest localAddr (some (user', pass'))).exec
      (left ++ request target.encode command) =
        ⟨.done (.ok t.encode c (some (user', pass'))), rest, [5, 0, 0] ++ l.encode⟩ := by
    rw [hrequest, exec_serverRequest hlocal _ hc]
  rw [hexec] at hrequested
  have hreply := reaches_client clientReply
    (Prog.done (ServerResult.ok t.encode c (some (user', pass')))) ([5, 0, 0] ++ (l.encode ++ []))
    [] rest
  rw [exec_clientReply rfl] at hreply
  simp only [List.append_nil, List.nil_append] at hgreeted hlogin hverdict hrequested hreply
  exact (((hgreeted.trans hlogin).trans hverdict).trans hrequested).trans hreply

theorem not_agrees_of_misread (h : Misread authenticator user target command localAddr) :
    ¬ Agrees authenticator user target command localAddr := by
  obtain ⟨au, username, password, rfl, rfl, hlong, hlocal, user', pass', left, rest, x, c, y, t,
    huser, hpass, hau, hleft, hc, hrequest⟩ := h
  obtain ⟨a, ha⟩ := Option.isSome_iff_exists.mp hlocal
  obtain ⟨l, rfl⟩ := parseAddr_eq_some ha
  obtain ⟨as, hrun⟩ := reaches_misread huser hpass hau hleft hc hrequest ha
  intro hagrees
  obtain ⟨-, -, hverified⟩ := hagrees as _ _ _ _ _ hrun rfl rfl
  obtain ⟨_, hlogin, hsame⟩ := hverified au rfl
  cases hlogin
  cases hsame
  have := huser.2
  have := hpass.2
  omega

/-- The two sides agree, in every run and for names and passwords of every
length, exactly if the server cannot read another login out of lengths that do
not fit a byte. -/
theorem handshake_agrees_iff :
    Agrees authenticator user target command localAddr ↔
      ¬ Misread authenticator user target command localAddr := by
  constructor
  · intro hagrees hmisread
    exact not_agrees_of_misread hmisread hagrees
  · exact agrees_of_not_misread

end Agreement

/-- 257 bytes: a name, a length and a password, then a request to connect to 1.2.3.4:80. -/
def smuggled : Str := [97, 1, 98, 5, 1, 0, 1, 1, 2, 3, 4, 0, 80] ++ List.replicate 244 120

/-- The client asks for 9.9.9.9:443 and logs in under that name; the server
verifies `a` with `b` and connects to 1.2.3.4:80. -/
theorem handshake_disagrees_long_username :
    ¬ ∀ (authenticator : Option Auth.Authenticator) (user : Option (Str × Str)) (target : Target)
      (command : Command) (localAddr : Str),
      Agrees authenticator user target command localAddr := by
  intro hall
  refine not_agrees_of_misread ?_ (hall
    (some fun user pass => user == str "a" && pass == str "b") (some (smuggled, str "pw"))
    ⟨.ipv4 [9, 9, 9, 9] rfl, 1, 187⟩ .connect (str "127.0.0.1:1080"))
  refine ⟨_, _, _, rfl, rfl, by decide +kernel, by decide +kernel, str "a", str "b",
    smuggled.drop 3 ++ [2] ++ str "pw", _, 5, 1, 0, ⟨.ipv4 [1, 2, 3, 4] rfl, 0, 80⟩,
    ⟨by decide +kernel, by decide +kernel⟩, ⟨by decide +kernel, by decide +kernel⟩,
    by decide +kernel, by decide +kernel, Or.inl rfl, rfl⟩

end RuleBaseProxy.Socks5
