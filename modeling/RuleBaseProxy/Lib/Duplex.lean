import RuleBaseProxy.Lib.Transition

/-! # Two programs on a duplex stream

A program reads a fixed number of bytes, writes bytes or returns. Two programs
joined by a stream in each direction take their steps in any order; a read
waits until enough bytes have arrived. Whatever the order, what a program has
done is what it does alone when it is given everything the other one has
written.
-/

namespace Duplex

open TransitionSystem

inductive Prog (β : Type u) (ρ : Type v) where
  | done (r : ρ)
  | read (n : Nat) (k : List β → Prog β ρ)
  | write (bs : List β) (next : Prog β ρ)

/-- Where a program stands: what it still has to do, the input it has not read,
and what it has written. -/
structure Standing (β : Type u) (ρ : Type v) where
  prog : Prog β ρ
  input : List β
  output : List β

variable {β : Type u} {ρ : Type v} {ρ' : Type w}

def Prog.step : Prog β ρ → List β → Option (Standing β ρ)
  | .done _, _ => none
  | .read n k, input =>
      if n ≤ input.length then some ⟨k (input.take n), input.drop n, []⟩ else none
  | .write bs next, input => some ⟨next, input, bs⟩

def Standing.emit (bs : List β) (s : Standing β ρ) : Standing β ρ :=
  { s with output := bs ++ s.output }

/-- A program alone with its input, up to its end or to a read that has to wait. -/
def Prog.exec : Prog β ρ → List β → Standing β ρ
  | .done r, input => ⟨.done r, input, []⟩
  | .read n k, input =>
      if n ≤ input.length then exec (k (input.take n)) (input.drop n) else ⟨.read n k, input, []⟩
  | .write bs next, input => (exec next input).emit bs

@[simp] theorem exec_done (r : ρ) (input : List β) :
    (Prog.done r).exec input = ⟨.done r, input, []⟩ := rfl

@[simp] theorem exec_write (bs : List β) (next : Prog β ρ) (input : List β) :
    (Prog.write bs next).exec input = (next.exec input).emit bs := rfl

theorem exec_read_append {n : Nat} (k : List β → Prog β ρ) {bs : List β} (h : bs.length = n)
    (input : List β) : (Prog.read n k).exec (bs ++ input) = (k bs).exec input := by
  subst h
  simp [Prog.exec]

/-- A program that has come to its end has had the bytes of its first read. -/
theorem exec_read_done {n : Nat} {k : List β → Prog β ρ} {input rest out : List β} {r : ρ}
    (h : (Prog.read n k).exec input = ⟨.done r, rest, out⟩) :
    ∃ bs input', bs.length = n ∧ input = bs ++ input' ∧ (k bs).exec input' = ⟨.done r, rest, out⟩ := by
  rw [Prog.exec] at h
  split at h
  · rename_i hle
    exact ⟨input.take n, input.drop n, by simp [hle], (List.take_append_drop n input).symm, h⟩
  · cases h

theorem exec_write_done {bs : List β} {next : Prog β ρ} {input rest out : List β} {r : ρ}
    (h : (Prog.write bs next).exec input = ⟨.done r, rest, out⟩) :
    ∃ out', out = bs ++ out' ∧ next.exec input = ⟨.done r, rest, out'⟩ := by
  rw [exec_write, Standing.emit] at h
  cases hnext : next.exec input with
  | mk prog rest' out' =>
      rw [hnext] at h
      cases h
      exact ⟨out', rfl, rfl⟩

@[simp] theorem emit_nil (s : Standing β ρ) : s.emit [] = s := rfl

theorem emit_emit (as bs : List β) (s : Standing β ρ) :
    (s.emit bs).emit as = s.emit (as ++ bs) := by
  simp [Standing.emit, List.append_assoc]

theorem exec_of_step {p : Prog β ρ} {input : List β} {s : Standing β ρ}
    (h : p.step input = some s) (more : List β) :
    p.exec (input ++ more) = (s.prog.exec (s.input ++ more)).emit s.output := by
  cases p with
  | done r => cases h
  | read n k =>
      simp only [Prog.step] at h
      split at h
      · rename_i hle
        cases h
        have hsplit : input ++ more = input.take n ++ (input.drop n ++ more) := by
          rw [← List.append_assoc, List.take_append_drop]
        rw [hsplit, exec_read_append k (by simp [hle]), emit_nil]
      · cases h
  | write bs next =>
      cases h
      rfl

/-! ## The network -/

structure Net (β : Type u) (ρ : Type v) (ρ' : Type w) where
  client : Prog β ρ
  server : Prog β ρ'
  toClient : List β
  toServer : List β

inductive Side where
  | client
  | server

def network : System (Net β ρ ρ') Side where
  step s
    | .client => (s.client.step s.toClient).map fun c =>
        { s with client := c.prog, toClient := c.input, toServer := s.toServer ++ c.output }
    | .server => (s.server.step s.toServer).map fun c =>
        { s with server := c.prog, toServer := c.input, toClient := s.toClient ++ c.output }

def connect (client : Prog β ρ) (server : Prog β ρ') : Net β ρ ρ' := ⟨client, server, [], []⟩

/-- In any run each side does what it does alone on the bytes of the other. -/
theorem exec_of_run {s t : Net β ρ ρ'} {as : List Side} (h : network.run s as = some t) :
    ∃ sent received : List β,
      (∀ more, s.client.exec (s.toClient ++ (received ++ more)) =
        (t.client.exec (t.toClient ++ more)).emit sent) ∧
      (∀ more, s.server.exec (s.toServer ++ (sent ++ more)) =
        (t.server.exec (t.toServer ++ more)).emit received) := by
  induction as generalizing s with
  | nil =>
      cases h
      exact ⟨[], [], fun _ => rfl, fun _ => rfl⟩
  | cons a as ih =>
      obtain ⟨u, hstep, hrest⟩ := Option.bind_eq_some_iff.mp h
      obtain ⟨sent, received, hclient, hserver⟩ := ih hrest
      cases a with
      | client =>
          obtain ⟨c, hc, rfl⟩ := Option.map_eq_some_iff.mp hstep
          refine ⟨c.output ++ sent, received, fun more => ?_, fun more => ?_⟩
          · rw [exec_of_step hc, hclient more, emit_emit]
          · have hmore := hserver more
            rw [List.append_assoc, ← List.append_assoc c.output] at hmore
            exact hmore
      | server =>
          obtain ⟨c, hc, rfl⟩ := Option.map_eq_some_iff.mp hstep
          refine ⟨sent, c.output ++ received, fun more => ?_, fun more => ?_⟩
          · have hmore := hclient more
            rw [List.append_assoc, ← List.append_assoc c.output] at hmore
            exact hmore
          · rw [exec_of_step hc, hserver more, emit_emit]

/-- When both sides have returned, each one's output is the other one's input. -/
theorem exec_of_run_done {client : Prog β ρ} {server : Prog β ρ'} {as : List Side}
    {t : Net β ρ ρ'} {r : ρ} {r' : ρ'} (h : network.run (connect client server) as = some t)
    (hclient : t.client = .done r) (hserver : t.server = .done r') :
    ∃ sent received : List β, client.exec received = ⟨.done r, t.toClient, sent⟩ ∧
      server.exec sent = ⟨.done r', t.toServer, received⟩ := by
  obtain ⟨sent, received, hc, hs⟩ := exec_of_run h
  refine ⟨sent, received, ?_, ?_⟩
  · have := hc []
    simpa [connect, hclient, Standing.emit] using this
  · have := hs []
    simpa [connect, hserver, Standing.emit] using this

/-! ## Runs that exist -/

def Reaches (s t : Net β ρ ρ') : Prop := ∃ as, network.run s as = some t

theorem Reaches.trans {s t u : Net β ρ ρ'} (hst : Reaches s t) (htu : Reaches t u) :
    Reaches s u := by
  obtain ⟨as, has⟩ := hst
  obtain ⟨bs, hbs⟩ := htu
  exact ⟨as ++ bs, by rw [System.run_append, has, Option.bind_some, hbs]⟩

theorem Reaches.step {s t u : Net β ρ ρ'} {a : Side} (hs : network.step s a = some t)
    (htu : Reaches t u) : Reaches s u := by
  obtain ⟨as, has⟩ := htu
  exact ⟨a :: as, by rw [System.run, hs, Option.bind_some, has]⟩

/-- The client takes its turn for as long as the first part of its input lasts. -/
theorem reaches_client (client : Prog β ρ) (server : Prog β ρ') (toClient more toServer : List β) :
    Reaches ⟨client, server, toClient ++ more, toServer⟩
      ⟨(client.exec toClient).prog, server, (client.exec toClient).input ++ more,
        toServer ++ (client.exec toClient).output⟩ := by
  induction client generalizing toClient toServer with
  | done r => exact ⟨[], by simp [System.run]⟩
  | read n k ih =>
      by_cases hle : n ≤ toClient.length
      · have hexec : (Prog.read n k).exec toClient = (k (toClient.take n)).exec (toClient.drop n) :=
          if_pos hle
        rw [hexec]
        refine Reaches.step (a := .client) ?_ (ih (toClient.take n) (toClient.drop n) toServer)
        simp [network, Prog.step, Nat.le_add_right_of_le hle, List.take_append_of_le_length hle,
          List.drop_append_of_le_length hle]
      · have hexec : (Prog.read n k).exec toClient = ⟨.read n k, toClient, []⟩ := if_neg hle
        exact ⟨[], by simp [System.run, hexec]⟩
  | write bs next ih =>
      refine Reaches.step (a := .client) (t := ⟨next, server, toClient ++ more, toServer ++ bs⟩)
        rfl ?_
      have hnext := ih toClient (toServer ++ bs)
      rw [List.append_assoc] at hnext
      exact hnext

theorem reaches_server (client : Prog β ρ) (server : Prog β ρ') (toClient toServer more : List β) :
    Reaches ⟨client, server, toClient, toServer ++ more⟩
      ⟨client, (server.exec toServer).prog, toClient ++ (server.exec toServer).output,
        (server.exec toServer).input ++ more⟩ := by
  induction server generalizing toClient toServer with
  | done r => exact ⟨[], by simp [System.run]⟩
  | read n k ih =>
      by_cases hle : n ≤ toServer.length
      · have hexec : (Prog.read n k).exec toServer = (k (toServer.take n)).exec (toServer.drop n) :=
          if_pos hle
        rw [hexec]
        refine Reaches.step (a := .server) ?_ (ih (toServer.take n) toClient (toServer.drop n))
        simp [network, Prog.step, Nat.le_add_right_of_le hle, List.take_append_of_le_length hle,
          List.drop_append_of_le_length hle]
      · have hexec : (Prog.read n k).exec toServer = ⟨.read n k, toServer, []⟩ := if_neg hle
        exact ⟨[], by simp [System.run, hexec]⟩
  | write bs next ih =>
      refine Reaches.step (a := .server) (t := ⟨client, next, toClient ++ bs, toServer ++ more⟩)
        rfl ?_
      have hnext := ih (toClient ++ bs) toServer
      rw [List.append_assoc] at hnext
      exact hnext

end Duplex
