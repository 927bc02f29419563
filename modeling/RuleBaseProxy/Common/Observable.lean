import RuleBaseProxy.Lib.Channel
import RuleBaseProxy.Lib.Transition
import Mathlib.Data.List.Nodup

/-! # Log subscriptions

The process of an `Observable` takes the items of a channel one by one, and under the mutex
sends each to every subscriber. `log` prints to such a channel and drops what does not fit;
the clients of `/logs` subscribe and write what they get to their connection.
-/

namespace RuleBaseProxy.Observable

open Go TransitionSystem

variable {α : Type} {n : Nat}

inductive Process (α : Type) where
  | receiving
  /-- Before `mux.Lock`. -/
  | locking (item : α)
  /-- The `range` over the listeners has `todo` before it. -/
  | emitting (item : α) (todo : List Nat)
  | stopped

inductive Reader where
  | reading
  /-- After the loop, before `UnSubscribe`. -/
  | leaving
  | gone
deriving DecidableEq

structure Subscriber (α : Type) where
  buffer : Channel α 200
  reader : Reader

def newSubscriber (α : Type) : Subscriber α := ⟨Channel.make α 200, .reading⟩

def Subscriber.close (sub : Subscriber α) : Subscriber α := { sub with buffer := sub.buffer.close }

structure State (α : Type) (n : Nat) where
  iterable : Channel α n
  process : Process α
  /-- The keys of the map: positions in `subscribers`. -/
  listener : List Nat
  /-- All that were ever made. -/
  subscribers : List (Subscriber α)
  done : Bool

/-- The channel of `log` is one for 300 events. -/
def newObservable (α : Type) (n : Nat) : State α n := ⟨Channel.make α n, .receiving, [], [], false⟩

def State.locked (s : State α n) : Bool :=
  match s.process with
  | .emitting _ _ => true
  | _ => false

inductive Event (α : Type) where
  | print (x : α)
  /-- The iterable is closed; `log` never does. -/
  | shut
  | receive
  | lock
  | emit (id : Nat)
  | unlock
  | close
  | subscribe
  /-- A client gets an item; `ok` says whether it could be written to the connection. -/
  | read (id : Nat) (ok : Bool)
  | ended (id : Nat)
  | unSubscribe (id : Nat)

def State.setSubscriber (s : State α n) (id : Nat) (sub : Subscriber α) : State α n :=
  { s with subscribers := s.subscribers.set id sub }

def emit (s : State α n) (item : α) (todo : List Nat) (id : Nat) : Option (State α n) :=
  if id ∈ todo then
    (s.subscribers[id]?).bind fun sub =>
      (sub.buffer.send item).map fun buffer =>
        { s.setSubscriber id { sub with buffer } with process := .emitting item (todo.erase id) }
  else none

def close (s : State α n) : State α n :=
  { s with
    process := .stopped
    done := true
    subscribers := s.subscribers.mapIdx fun id sub => if id ∈ s.listener then sub.close else sub }

def subscribe (s : State α n) : State α n :=
  -- an error where the observable is closed
  if s.done then s
  else
    { s with
      listener := s.listener ++ [s.subscribers.length]
      subscribers := s.subscribers ++ [newSubscriber α] }

def unSubscribe (s : State α n) (id : Nat) (sub : Subscriber α) : State α n :=
  if id ∈ s.listener then
    { s.setSubscriber id { sub.close with reader := .gone } with
      listener := s.listener.erase id }
  else s.setSubscriber id { sub with reader := .gone }

def step (s : State α n) : Event α → Option (State α n)
  | .print x =>
      if s.iterable.closed then none
      else some { s with iterable := (s.iterable.send x).getD s.iterable }
  | .shut =>
      if s.iterable.closed then none else some { s with iterable := s.iterable.close }
  | .receive =>
      match s.process with
      | .receiving =>
          s.iterable.receive.map fun r => { s with iterable := r.2, process := .locking r.1 }
      | _ => none
  | .lock =>
      match s.process with
      | .locking item => some { s with process := .emitting item s.listener }
      | _ => none
  | .emit id =>
      match s.process with
      | .emitting item todo => emit s item todo id
      | _ => none
  | .unlock =>
      match s.process with
      | .emitting _ [] => some { s with process := .receiving }
      | _ => none
  | .close =>
      match s.process with
      | .receiving => if s.iterable.ended then some (close s) else none
      | _ => none
  | .subscribe => if s.locked then none else some (subscribe s)
  | .read id ok =>
      (s.subscribers[id]?).bind fun sub =>
        match sub.reader with
        | .reading =>
            sub.buffer.receive.map fun r =>
              s.setSubscriber id ⟨r.2, if ok then .reading else .leaving⟩
        | _ => none
  | .ended id =>
      (s.subscribers[id]?).bind fun sub =>
        if sub.reader = .reading ∧ sub.buffer.ended then
          some (s.setSubscriber id { sub with reader := .leaving })
        else none
  | .unSubscribe id =>
      if s.locked then none
      else
        (s.subscribers[id]?).bind fun sub =>
          if sub.reader = .leaving then some (unSubscribe s id sub) else none

def system (α : Type) (n : Nat) : System (State α n) (Event α) := ⟨step⟩

/-! ## What a step can do -/

variable {s t : State α n}

inductive Step (s : State α n) : Event α → State α n → Prop
  | print {x : α} {iterable : Channel α n} (hsent : ∃ xs, iterable.sent = s.iterable.sent ++ xs)
      (htaken : iterable.taken = s.iterable.taken) : Step s (.print x) { s with iterable }
  | shut : Step s .shut { s with iterable := s.iterable.close }
  | receive {item : α} {iterable : Channel α n} (hproc : s.process = .receiving)
      (hreceive : s.iterable.receive = some (item, iterable)) :
      Step s .receive { s with iterable, process := .locking item }
  | lock {item : α} (hproc : s.process = .locking item) :
      Step s .lock { s with process := .emitting item s.listener }
  | emit {id : Nat} {item : α} {todo : List Nat} {sub : Subscriber α} {buffer : Channel α 200}
      (hproc : s.process = .emitting item todo) (hid : id ∈ todo)
      (hsub : s.subscribers[id]? = some sub) (hsend : sub.buffer.send item = some buffer) :
      Step s (.emit id)
        { s.setSubscriber id { sub with buffer } with process := .emitting item (todo.erase id) }
  | unlock {item : α} (hproc : s.process = .emitting item []) :
      Step s .unlock { s with process := .receiving }
  | close (hproc : s.process = .receiving) : Step s .close (close s)
  | subscribe (hlocked : s.locked = false) : Step s .subscribe (subscribe s)
  | read {id : Nat} {ok : Bool} {sub : Subscriber α} {item : α} {buffer : Channel α 200}
      (hsub : s.subscribers[id]? = some sub) (hreader : sub.reader = .reading)
      (hreceive : sub.buffer.receive = some (item, buffer)) :
      Step s (.read id ok) (s.setSubscriber id ⟨buffer, if ok then .reading else .leaving⟩)
  | ended {id : Nat} {sub : Subscriber α} (hsub : s.subscribers[id]? = some sub)
      (hreader : sub.reader = .reading) :
      Step s (.ended id) (s.setSubscriber id { sub with reader := .leaving })
  | unSubscribe {id : Nat} {sub : Subscriber α} (hlocked : s.locked = false)
      (hsub : s.subscribers[id]? = some sub) (hreader : sub.reader = .leaving) :
      Step s (.unSubscribe id) (unSubscribe s id sub)

theorem step_cases {e : Event α} (h : step s e = some t) : Step s e t := by
  cases e with
  | print x =>
      obtain ⟨-, ⟨⟩⟩ := Option.ite_none_left_eq_some.mp h
      cases hsend : s.iterable.send x with
      | none => exact .print ⟨[], by simp⟩ rfl
      | some d =>
          obtain ⟨-, hsent, htaken, -⟩ := Channel.send_eq_some hsend
          exact .print ⟨[x], hsent⟩ htaken
  | shut =>
      obtain ⟨-, ⟨⟩⟩ := Option.ite_none_left_eq_some.mp h
      exact .shut
  | receive =>
      simp only [step] at h
      split at h
      case h_1 hproc =>
        obtain ⟨⟨item, iterable⟩, hreceive, rfl⟩ := Option.map_eq_some_iff.mp h
        exact .receive hproc hreceive
      case h_2 => cases h
  | lock =>
      simp only [step] at h
      split at h
      case h_1 item hproc =>
        cases h
        exact .lock hproc
      case h_2 => cases h
  | emit id =>
      simp only [step] at h
      split at h
      case h_1 item todo hproc =>
        obtain ⟨hid, h⟩ := Option.ite_none_right_eq_some.mp h
        obtain ⟨sub, hsub, h⟩ := Option.bind_eq_some_iff.mp h
        obtain ⟨buffer, hsend, rfl⟩ := Option.map_eq_some_iff.mp h
        exact .emit hproc hid hsub hsend
      case h_2 => cases h
  | unlock =>
      simp only [step] at h
      split at h
      case h_1 item hproc =>
        cases h
        exact .unlock hproc
      case h_2 => cases h
  | close =>
      simp only [step] at h
      split at h
      case h_1 hproc =>
        obtain ⟨-, ⟨⟩⟩ := Option.ite_none_right_eq_some.mp h
        exact .close hproc
      case h_2 => cases h
  | subscribe =>
      obtain ⟨hlocked, ⟨⟩⟩ := Option.ite_none_left_eq_some.mp h
      exact .subscribe (Bool.eq_false_iff.mpr hlocked)
  | read id ok =>
      obtain ⟨sub, hsub, h⟩ := Option.bind_eq_some_iff.mp h
      cases hreader : sub.reader with
      | reading =>
          simp only [hreader] at h
          obtain ⟨⟨item, buffer⟩, hreceive, rfl⟩ := Option.map_eq_some_iff.mp h
          exact .read hsub hreader hreceive
      | leaving =>
          simp only [hreader] at h
          cases h
      | gone =>
          simp only [hreader] at h
          cases h
  | ended id =>
      obtain ⟨sub, hsub, h⟩ := Option.bind_eq_some_iff.mp h
      obtain ⟨⟨hreader, -⟩, ⟨⟩⟩ := Option.ite_none_right_eq_some.mp h
      exact .ended hsub hreader
  | unSubscribe id =>
      obtain ⟨hlocked, h⟩ := Option.ite_none_left_eq_some.mp h
      obtain ⟨sub, hsub, h⟩ := Option.bind_eq_some_iff.mp h
      obtain ⟨hreader, ⟨⟩⟩ := Option.ite_none_right_eq_some.mp h
      exact .unSubscribe (Bool.eq_false_iff.mpr hlocked) hsub hreader

/-! ## The subscribers that are served -/

def State.todo (s : State α n) : List Nat :=
  match s.process with
  | .emitting _ todo => todo
  | _ => []

def State.item (s : State α n) : Option α :=
  match s.process with
  | .locking item | .emitting item _ => some item
  | .receiving | .stopped => none

def State.Open (s : State α n) : Prop :=
  ∀ id ∈ s.listener, ∃ sub, s.subscribers[id]? = some sub ∧ sub.buffer.closed = false

structure Valid (s : State α n) : Prop where
  nodup : s.listener.Nodup
  todo_nodup : s.todo.Nodup
  todo_subset : s.todo ⊆ s.listener
  opened : s.done = false → s.Open
  stopped : s.done = true → s.process = .stopped
  item : ∀ item, s.item = some item →
    0 < s.iterable.taken ∧ s.iterable.sent[s.iterable.taken - 1]? = some item

theorem getElem?_setSubscriber {id j : Nat} {sub sub' : Subscriber α}
    (hsub : s.subscribers[id]? = some sub) :
    (s.setSubscriber id sub').subscribers[j]? =
      if j = id then some sub' else s.subscribers[j]? := by
  obtain ⟨hlt, -⟩ := List.getElem?_eq_some_iff.mp hsub
  unfold State.setSubscriber
  split
  case isTrue heq =>
    subst heq
    exact List.getElem?_set_self hlt
  case isFalse hne => exact List.getElem?_set_ne (Ne.symm hne)

theorem State.Open.setSubscriber (h : s.Open) {id : Nat} {sub sub' : Subscriber α}
    (hsub : s.subscribers[id]? = some sub) (hclosed : sub'.buffer.closed = sub.buffer.closed) :
    (s.setSubscriber id sub').Open := by
  intro j hj
  obtain ⟨old, hold, hopen⟩ := h j hj
  rw [getElem?_setSubscriber hsub]
  split
  case isTrue heq =>
    subst heq
    rw [hsub] at hold
    cases hold
    exact ⟨sub', rfl, hclosed.trans hopen⟩
  case isFalse => exact ⟨old, hold, hopen⟩

theorem State.Open.lt (h : s.Open) {id : Nat} (hid : id ∈ s.listener) :
    id < s.subscribers.length := by
  obtain ⟨sub, hsub, -⟩ := h id hid
  exact (List.getElem?_eq_some_iff.mp hsub).choose

theorem todo_eq_nil (h : s.locked = false) : s.todo = [] := by
  unfold State.locked at h
  unfold State.todo
  split at h
  case h_1 => cases h
  case h_2 => rfl

theorem Valid.not_done (hs : Valid s) (hproc : s.process ≠ .stopped) : s.done = false := by
  cases hdone : s.done with
  | false => rfl
  | true => exact (hproc (hs.stopped hdone)).elim

theorem Valid.subscribe (hs : Valid s) (hlocked : s.locked = false) : Valid (subscribe s) := by
  have htodo := todo_eq_nil hlocked
  unfold Observable.subscribe
  split
  case isTrue => exact hs
  case isFalse hdone =>
    have hopen : s.Open := hs.opened (Bool.eq_false_iff.mpr hdone)
    refine ⟨?_, hs.todo_nodup, ?_, fun _ => ?_, hs.stopped, hs.item⟩
    · rw [List.nodup_append]
      refine ⟨hs.nodup, List.nodup_singleton _, ?_⟩
      intro id hid j hj
      rw [List.mem_singleton.mp hj]
      exact Nat.ne_of_lt (hopen.lt hid)
    · change s.todo ⊆ _
      rw [htodo]
      exact List.nil_subset _
    · intro id hid
      rcases List.mem_append.mp hid with hid | hid
      · obtain ⟨sub, hsub, hclosed⟩ := hopen id hid
        refine ⟨sub, ?_, hclosed⟩
        rw [List.getElem?_append_left (hopen.lt hid), hsub]
      · rw [List.mem_singleton.mp hid]
        exact ⟨newSubscriber α, List.getElem?_concat_length, rfl⟩

theorem Valid.unSubscribe (hs : Valid s) (hlocked : s.locked = false) {id : Nat}
    {sub : Subscriber α} (hsub : s.subscribers[id]? = some sub) : Valid (unSubscribe s id sub) := by
  have htodo := todo_eq_nil hlocked
  unfold Observable.unSubscribe
  split
  case isTrue =>
    refine ⟨hs.nodup.erase id, hs.todo_nodup, ?_, fun hdone => ?_, hs.stopped, hs.item⟩
    · change s.todo ⊆ _
      rw [htodo]
      exact List.nil_subset _
    · intro j hj
      obtain ⟨hne, hj⟩ := hs.nodup.mem_erase_iff.mp hj
      obtain ⟨old, hold, hclosed⟩ := hs.opened hdone j hj
      refine ⟨old, ?_, hclosed⟩
      change (s.setSubscriber _ _).subscribers[j]? = _
      rw [getElem?_setSubscriber hsub, if_neg hne, hold]
  case isFalse =>
    exact ⟨hs.nodup, hs.todo_nodup, hs.todo_subset,
      fun hdone => (hs.opened hdone).setSubscriber hsub rfl, hs.stopped, hs.item⟩

theorem Valid.setSubscriber (hs : Valid s) {id : Nat} {sub sub' : Subscriber α}
    (hsub : s.subscribers[id]? = some sub) (hclosed : sub'.buffer.closed = sub.buffer.closed) :
    Valid (s.setSubscriber id sub') :=
  ⟨hs.nodup, hs.todo_nodup, hs.todo_subset, fun hdone => (hs.opened hdone).setSubscriber hsub hclosed,
    hs.stopped, hs.item⟩

theorem Valid.step {e : Event α} (h : step s e = some t) (hs : Valid s) : Valid t := by
  cases step_cases h with
  | print hsent htaken =>
      refine ⟨hs.nodup, hs.todo_nodup, hs.todo_subset, hs.opened, hs.stopped, ?_⟩
      intro item hitem
      obtain ⟨hpos, hget⟩ := hs.item item hitem
      obtain ⟨xs, hsent⟩ := hsent
      refine ⟨htaken ▸ hpos, ?_⟩
      rw [hsent, htaken, List.getElem?_append_left, hget]
      exact (List.getElem?_eq_some_iff.mp hget).choose
  | shut => exact ⟨hs.nodup, hs.todo_nodup, hs.todo_subset, hs.opened, hs.stopped, hs.item⟩
  | receive hproc hreceive =>
      obtain ⟨hget, hsent, htaken, -⟩ := Channel.receive_eq_some hreceive
      have hdone : s.done = false := hs.not_done (by rw [hproc]; rintro ⟨⟩)
      refine ⟨hs.nodup, List.nodup_nil, List.nil_subset _, hs.opened, ?_, ?_⟩
      · intro htrue
        cases hdone.symm.trans htrue
      · rintro item ⟨⟩
        rw [hsent, htaken]
        exact ⟨Nat.succ_pos _, hget⟩
  | lock hproc =>
      have hdone : s.done = false := hs.not_done (by rw [hproc]; rintro ⟨⟩)
      refine ⟨hs.nodup, hs.nodup, List.Subset.refl _, hs.opened, ?_, ?_⟩
      · intro htrue
        cases hdone.symm.trans htrue
      · rintro item ⟨⟩
        exact hs.item _ (by rw [State.item, hproc])
  | @emit id item todo sub buffer hproc hid hsub hsend =>
      obtain ⟨-, -, -, hclosed⟩ := Channel.send_eq_some hsend
      have hdone : s.done = false := hs.not_done (by rw [hproc]; rintro ⟨⟩)
      have htodo : s.todo = todo := by rw [State.todo, hproc]
      refine ⟨hs.nodup, ?_, ?_, fun _ => ?_, ?_, ?_⟩
      · exact (htodo ▸ hs.todo_nodup).erase _
      · exact fun j hj => hs.todo_subset (htodo ▸ List.mem_of_mem_erase hj)
      · exact (hs.opened hdone).setSubscriber hsub hclosed
      · intro htrue
        cases hdone.symm.trans htrue
      · rintro item ⟨⟩
        exact hs.item _ (by rw [State.item, hproc])
  | unlock hproc =>
      have hdone : s.done = false := hs.not_done (by rw [hproc]; rintro ⟨⟩)
      refine ⟨hs.nodup, List.nodup_nil, List.nil_subset _, hs.opened, ?_, ?_⟩
      · intro htrue
        cases hdone.symm.trans htrue
      · rintro item ⟨⟩
  | close hproc =>
      refine ⟨hs.nodup, List.nodup_nil, List.nil_subset _, ?_, fun _ => rfl, ?_⟩
      · rintro ⟨⟩
      · rintro item ⟨⟩
  | subscribe hlocked => exact hs.subscribe hlocked
  | read hsub hreader hreceive =>
      obtain ⟨-, -, -, hclosed⟩ := Channel.receive_eq_some hreceive
      exact hs.setSubscriber hsub hclosed
  | ended hsub hreader => exact hs.setSubscriber hsub rfl
  | unSubscribe hlocked hsub hreader => exact hs.unSubscribe hlocked hsub

theorem valid_newObservable : Valid (newObservable α n) := by
  refine ⟨List.nodup_nil, List.nodup_nil, List.nil_subset _, fun _ => ?_, ?_, ?_⟩
  · rintro id ⟨⟩
  · rintro ⟨⟩
  · rintro item ⟨⟩

theorem Valid.run (hs : Valid s) {events : List (Event α)}
    (hrun : (system α n).run s events = some t) : Valid t := by
  have hkeep : ∀ (s : State α n) (e : Event α) (t : State α n), Valid s →
      (system α n).step s e = some t → Valid t := fun _ _ _ hs h => hs.step h
  exact ((system α n).always_of_step hkeep events hs).last _ hrun

/-! ## What a subscriber gets -/

/-- The items of the iterable that have not been sent to `id`, although they were received. -/
def State.owed (s : State α n) (id : Nat) : Nat :=
  match s.process with
  | .locking _ => 1
  | .emitting _ todo => if id ∈ todo then 1 else 0
  | .receiving | .stopped => 0

def State.due (s : State α n) (id : Nat) : List α :=
  s.iterable.sent.take (s.iterable.taken - s.owed id)

structure Delivered (k id : Nat) (s : State α n) : Prop where
  listens : id ∈ s.listener
  le : k ≤ (s.due id).length
  sent : ∃ sub, s.subscribers[id]? = some sub ∧ sub.buffer.sent = (s.due id).drop k

theorem Delivered.congr {k id : Nat} (hs : Delivered k id s) (hlistens : id ∈ t.listener)
    (hdue : t.due id = s.due id)
    (hsub : ∀ sub, s.subscribers[id]? = some sub →
      ∃ sub', t.subscribers[id]? = some sub' ∧ sub'.buffer.sent = sub.buffer.sent) :
    Delivered k id t := by
  obtain ⟨sub, hget, hsent⟩ := hs.sent
  obtain ⟨sub', hget', hsent'⟩ := hsub sub hget
  refine ⟨hlistens, ?_, sub', hget', ?_⟩
  · rw [hdue]
    exact hs.le
  · rw [hsent', hsent, hdue]

theorem Delivered.setSubscriber {k id : Nat} (hs : Delivered k id s) {j : Nat}
    {sub sub' : Subscriber α} (hsub : s.subscribers[j]? = some sub)
    (hsent : sub'.buffer.sent = sub.buffer.sent) : Delivered k id (s.setSubscriber j sub') := by
  refine hs.congr hs.listens rfl fun old hold => ?_
  rw [getElem?_setSubscriber hsub]
  split
  case isTrue heq =>
    subst heq
    cases hsub.symm.trans hold
    exact ⟨sub', rfl, hsent⟩
  case isFalse => exact ⟨old, hold, rfl⟩

theorem due_eq {id : Nat} (howed : t.owed id = s.owed id)
    (hsent : t.iterable.sent = s.iterable.sent)
    (htaken : t.iterable.taken = s.iterable.taken) : t.due id = s.due id := by
  rw [State.due, State.due, howed, hsent, htaken]

theorem due_of_print {iterable : Channel α n}
    (hsent : ∃ xs, iterable.sent = s.iterable.sent ++ xs)
    (htaken : iterable.taken = s.iterable.taken) (id : Nat) :
    State.due { s with iterable } id = s.due id := by
  obtain ⟨xs, hsent⟩ := hsent
  have hle := s.iterable.taken_le
  change iterable.sent.take (iterable.taken - s.owed id) = _
  rw [hsent, htaken, List.take_append_of_le_length (by omega)]
  rfl

theorem due_of_receive {item : α} {iterable : Channel α n} (hproc : s.process = .receiving)
    (hreceive : s.iterable.receive = some (item, iterable)) (id : Nat) :
    State.due { s with iterable, process := .locking item } id = s.due id := by
  obtain ⟨-, hsent, htaken, -⟩ := Channel.receive_eq_some hreceive
  have howed : s.owed id = 0 := by rw [State.owed, hproc]
  change iterable.sent.take (iterable.taken - 1) = _
  rw [hsent, htaken, State.due, howed, Nat.add_sub_cancel, Nat.sub_zero]

theorem Delivered.emit {k id : Nat} (hs : Delivered k id s) (hvalid : Valid s) {item : α}
    {todo : List Nat} {sub : Subscriber α} {buffer : Channel α 200}
    (hproc : s.process = .emitting item todo) (hid : id ∈ todo)
    (hsub : s.subscribers[id]? = some sub) (hsend : sub.buffer.send item = some buffer) :
    Delivered k id
      { s.setSubscriber id { sub with buffer } with process := .emitting item (todo.erase id) } := by
  obtain ⟨-, hsent, -, -⟩ := Channel.send_eq_some hsend
  obtain ⟨hpos, hget⟩ := hvalid.item item (by rw [State.item, hproc])
  have hnot : id ∉ todo.erase id := by
    have hnodup := hvalid.todo_nodup
    rw [State.todo, hproc] at hnodup
    exact hnodup.not_mem_erase
  have hold : s.due id = s.iterable.sent.take (s.iterable.taken - 1) := by
    rw [State.due, State.owed, hproc]
    exact congrArg (fun m => s.iterable.sent.take (s.iterable.taken - m)) (if_pos hid)
  have hnew : State.due { s.setSubscriber id { sub with buffer } with
      process := .emitting item (todo.erase id) } id = s.due id ++ [item] := by
    rw [hold]
    change s.iterable.sent.take (s.iterable.taken - if id ∈ todo.erase id then 1 else 0) = _
    obtain ⟨m, hm⟩ := Nat.exists_eq_add_of_lt hpos
    rw [Nat.zero_add] at hm
    rw [hm, Nat.add_sub_cancel] at hget
    rw [if_neg hnot, hm, Nat.sub_zero, Nat.add_sub_cancel, List.take_add_one, hget]
    rfl
  obtain ⟨old, hgot, hall⟩ := hs.sent
  cases hsub.symm.trans hgot
  refine ⟨hs.listens, ?_, { sub with buffer }, ?_, ?_⟩
  · rw [hnew, List.length_append]
    exact Nat.le_add_right_of_le hs.le
  · exact (getElem?_setSubscriber hsub).trans (if_pos rfl)
  · rw [hnew, List.drop_append_of_le_length hs.le, ← hall]
    exact hsent

theorem Delivered.step {k id : Nat} {e : Event α} (h : step s e = some t) (hvalid : Valid s)
    (hs : Delivered k id s) (hstay : e ≠ .unSubscribe id) : Delivered k id t := by
  have hsame : ∀ sub, s.subscribers[id]? = some sub →
      ∃ sub', s.subscribers[id]? = some sub' ∧ sub'.buffer.sent = sub.buffer.sent :=
    fun sub hsub => ⟨sub, hsub, rfl⟩
  cases step_cases h with
  | print hsent htaken => exact hs.congr hs.listens (due_of_print hsent htaken id) hsame
  | shut => exact hs.congr hs.listens rfl hsame
  | receive hproc hreceive => exact hs.congr hs.listens (due_of_receive hproc hreceive id) hsame
  | lock hproc =>
      refine hs.congr hs.listens (due_eq ?_ rfl rfl) hsame
      rw [State.owed, State.owed, hproc]
      exact if_pos hs.listens
  | @emit j item todo sub buffer hproc hj hsub hsend =>
      by_cases heq : id = j
      · subst heq
        exact hs.emit hvalid hproc hj hsub hsend
      · refine hs.congr hs.listens (due_eq ?_ rfl rfl) ?_
        · rw [State.owed, State.owed, hproc]
          simp only [List.mem_erase_of_ne heq]
        · intro old hold
          refine ⟨old, ?_, rfl⟩
          change (s.setSubscriber _ _).subscribers[id]? = _
          rw [getElem?_setSubscriber hsub, if_neg heq, hold]
  | unlock hproc =>
      refine hs.congr hs.listens (due_eq ?_ rfl rfl) hsame
      rw [State.owed, State.owed, hproc]
      rfl
  | close hproc =>
      refine hs.congr hs.listens (due_eq ?_ rfl rfl) ?_
      · rw [State.owed, State.owed, hproc]
        rfl
      · intro sub hsub
        refine ⟨if id ∈ s.listener then sub.close else sub, ?_, ?_⟩
        · change (s.subscribers.mapIdx _)[id]? = _
          rw [List.getElem?_mapIdx, hsub]
          rfl
        · rw [if_pos hs.listens]
          rfl
  | subscribe hlocked =>
      unfold Observable.subscribe
      split
      case isTrue => exact hs
      case isFalse =>
        refine hs.congr (List.mem_append_left _ hs.listens) rfl fun sub hsub => ⟨sub, ?_, rfl⟩
        rw [List.getElem?_append_left, hsub]
        exact (List.getElem?_eq_some_iff.mp hsub).choose
  | read hsub hreader hreceive =>
      obtain ⟨-, hsent, -, -⟩ := Channel.receive_eq_some hreceive
      exact hs.setSubscriber hsub hsent
  | ended hsub hreader => exact hs.setSubscriber hsub rfl
  | @unSubscribe j sub hlocked hsub hreader =>
      have hne : id ≠ j := by
        rintro rfl
        exact hstay rfl
      unfold Observable.unSubscribe
      split
      case isTrue =>
        refine hs.congr ((List.mem_erase_of_ne hne).mpr hs.listens) rfl fun old hold => ?_
        refine ⟨old, ?_, rfl⟩
        change (s.setSubscriber _ _).subscribers[id]? = _
        rw [getElem?_setSubscriber hsub, if_neg hne, hold]
      case isFalse => exact hs.setSubscriber hsub rfl

theorem delivered_subscribe (hdone : s.done = false) :
    Delivered ((subscribe s).due s.subscribers.length).length s.subscribers.length
      (subscribe s) := by
  unfold subscribe
  rw [hdone]
  refine ⟨List.mem_append_right _ (List.mem_singleton_self _), Nat.le_refl _, newSubscriber α, ?_, ?_⟩
  · exact List.getElem?_concat_length
  · rw [List.drop_length]
    rfl

theorem Delivered.run {k id : Nat} (hvalid : Valid s) (hs : Delivered k id s)
    {events : List (Event α)} (hstay : .unSubscribe id ∉ events)
    (hrun : (system α n).run s events = some t) : Delivered k id t := by
  have hkeep : ∀ (s : State α n) (e : Event α) (t : State α n), Valid s ∧ Delivered k id s →
      e ≠ .unSubscribe id → (system α n).step s e = some t → Valid t ∧ Delivered k id t :=
    fun _ _ _ hs hne h => ⟨hs.1.step h, hs.2.step h hs.1 hne⟩
  have hguarded : (system α n).Guarded (fun _ e => e ≠ .unSubscribe id) s events := by
    refine (system α n).guarded_of_forall ?_ s
    rintro e he _ rfl
    exact hstay he
  exact (((system α n).always_of_guarded hkeep ⟨hvalid, hs⟩ hguarded).last _ hrun).2

/-- Over every interleaving: nothing is sent on a closed buffer, and as long as a client does
not unsubscribe, what was sent to it is, without a gap and in order, all that the process has
taken from its channel and is through with since the client subscribed. -/
theorem subscription_complete (earlier later : List (Event α)) (s₁ s₂ s₃ : State α n)
    (hearlier : (system α n).run (newObservable α n) earlier = some s₁) (hopen : s₁.done = false)
    (hsubscribe : step s₁ .subscribe = some s₂)
    (hlater : (system α n).run s₂ later = some s₃)
    (hstay : .unSubscribe s₁.subscribers.length ∉ later) :
    (∀ id ∈ s₃.todo, ∃ sub, s₃.subscribers[id]? = some sub ∧ sub.buffer.closed = false) ∧
      ∃ sub, s₃.subscribers[s₁.subscribers.length]? = some sub ∧
        sub.buffer.sent =
          (s₃.due s₁.subscribers.length).drop (s₂.due s₁.subscribers.length).length := by
  have hvalid₂ : Valid s₂ := (valid_newObservable.run hearlier).step hsubscribe
  have hvalid₃ : Valid s₃ := hvalid₂.run hlater
  obtain ⟨-, ⟨⟩⟩ := Option.ite_none_left_eq_some.mp hsubscribe
  constructor
  · intro id hid
    have hlocked : s₃.process ≠ .stopped := by
      intro hproc
      rw [State.todo, hproc] at hid
      cases hid
    exact hvalid₃.opened (hvalid₃.not_done hlocked) id (hvalid₃.todo_subset hid)
  · exact ((delivered_subscribe hopen).run hvalid₂ hstay hlater).sent

/-- A client that comes after the first item. -/
theorem subscription_complete_second :
    ∃ s₁ s₂ s₃ : State Nat 300,
      (system Nat 300).run (newObservable Nat 300) [.print 7, .receive, .lock, .unlock] = some s₁ ∧
      step s₁ .subscribe = some s₂ ∧
      (system Nat 300).run s₂
        [.print 8, .receive, .lock, .emit 0, .print 9, .unlock, .read 0 true] = some s₃ ∧
      ∃ sub, s₃.subscribers[s₁.subscribers.length]? = some sub ∧
        sub.buffer.sent =
          (s₃.due s₁.subscribers.length).drop (s₂.due s₁.subscribers.length).length := by
  refine ⟨_, _, _, rfl, rfl, rfl, ?_⟩
  exact (subscription_complete [.print 7, .receive, .lock, .unlock]
    [.print 8, .receive, .lock, .emit 0, .print 9, .unlock, .read 0 true] _ _ _ rfl rfl rfl rfl
    (by simp)).2

/-! ## When the mutex is not released -/

/-- The process waits for a client that does not read any more. -/
def Blocked (id : Nat) (s : State α n) : Prop :=
  ∃ item todo sub, s.process = .emitting item todo ∧ id ∈ todo ∧ s.subscribers[id]? = some sub ∧
    sub.buffer.isFull = true ∧ sub.reader ≠ .reading

theorem Blocked.locked {id : Nat} (h : Blocked id s) : s.locked = true := by
  obtain ⟨item, todo, sub, hproc, -⟩ := h
  rw [State.locked, hproc]

theorem Blocked.setSubscriber {id j : Nat} (hs : Blocked id s) {old new : Subscriber α}
    (hold : s.subscribers[j]? = some old) (hreading : old.reader = .reading) :
    Blocked id (s.setSubscriber j new) := by
  obtain ⟨item, todo, sub, hproc, hid, hsub, hfull, hreader⟩ := hs
  have hne : id ≠ j := by
    rintro rfl
    cases hsub.symm.trans hold
    exact hreader hreading
  exact ⟨item, todo, sub, hproc, hid, (getElem?_setSubscriber hold).trans ((if_neg hne).trans hsub),
    hfull, hreader⟩

theorem Blocked.step {id : Nat} {e : Event α} (h : step s e = some t) (hs : Blocked id s) :
    Blocked id t := by
  have hlocked := hs.locked
  have hall := hs
  obtain ⟨item, todo, sub, hproc, hid, hsub, hfull, hreader⟩ := hs
  cases step_cases h with
  | print | shut => exact ⟨item, todo, sub, hproc, hid, hsub, hfull, hreader⟩
  | receive hother | lock hother | close hother => cases hproc.symm.trans hother
  | unlock hother =>
      cases hproc.symm.trans hother
      cases hid
  | @emit j item' todo' old buffer hemit hj hold hsend =>
      cases hproc.symm.trans hemit
      have hne : id ≠ j := by
        rintro rfl
        cases hsub.symm.trans hold
        rw [Channel.send_of_isFull hfull] at hsend
        cases hsend
      refine ⟨item, todo.erase j, sub, rfl, (List.mem_erase_of_ne hne).mpr hid, ?_, hfull, hreader⟩
      exact (getElem?_setSubscriber hold).trans ((if_neg hne).trans hsub)
  | subscribe hfree | unSubscribe hfree => cases hlocked.symm.trans hfree
  | read hold hreading => exact hall.setSubscriber hold hreading
  | ended hold hreading => exact hall.setSubscriber hold hreading

theorem Blocked.run {id : Nat} (hs : Blocked id s) {events : List (Event α)}
    (hrun : (system α n).run s events = some t) : Blocked id t := by
  have hkeep : ∀ (s : State α n) (e : Event α) (t : State α n), Blocked id s →
      (system α n).step s e = some t → Blocked id t := fun _ _ _ hs h => hs.step h
  exact ((system α n).always_of_step hkeep events hs).last _ hrun

theorem step_emit {id : Nat} {item : α} {todo : List Nat} {sub : Subscriber α}
    (hproc : s.process = .emitting item (id :: todo)) (hsub : s.subscribers[id]? = some sub)
    (hopen : sub.buffer.closed = false) (hroom : sub.buffer.isFull = false) :
    ∃ buffer, step s (.emit id) =
      some { s.setSubscriber id { sub with buffer } with process := .emitting item todo } := by
  obtain ⟨buffer, hsend⟩ := Channel.exists_send hopen hroom item
  refine ⟨buffer, ?_⟩
  simp only [step, hproc, emit, List.mem_cons_self, if_true, hsub, Option.bind_some, hsend,
    Option.map_some, List.erase_cons_head]

/-- The next item of the `range` can be sent, after its client has read if need be. -/
theorem exists_emit {id : Nat} {item : α} {todo : List Nat} {sub : Subscriber α}
    (hproc : s.process = .emitting item (id :: todo)) (hsub : s.subscribers[id]? = some sub)
    (hopen : sub.buffer.closed = false)
    (hreads : sub.buffer.isFull = true → sub.reader = .reading) :
    ∃ events t, (system α n).run s events = some t ∧ t.process = .emitting item todo ∧
      ∀ j, j ≠ id → t.subscribers[j]? = s.subscribers[j]? := by
  cases hfull : sub.buffer.isFull with
  | false =>
      obtain ⟨buffer, hstep⟩ := step_emit hproc hsub hopen hfull
      have hrun : (system α n).run s [.emit id] = some _ :=
        Option.bind_eq_some_iff.mpr ⟨_, hstep, rfl⟩
      refine ⟨_, _, hrun, rfl, fun j hj => ?_⟩
      exact (getElem?_setSubscriber hsub).trans (if_neg hj)
  | true =>
      obtain ⟨x, buffer, hreceive, hroom, hclosed⟩ := Channel.exists_receive hfull (by decide)
      have hread : step s (.read id true) = some (s.setSubscriber id ⟨buffer, .reading⟩) := by
        simp only [step, hsub, Option.bind_some, hreads hfull, hreceive, Option.map_some, if_true]
      have hsub' : (s.setSubscriber id ⟨buffer, .reading⟩).subscribers[id]? =
          some ⟨buffer, .reading⟩ := (getElem?_setSubscriber hsub).trans (if_pos rfl)
      obtain ⟨buffer', hstep⟩ := step_emit (s := s.setSubscriber id ⟨buffer, .reading⟩) hproc hsub'
        (hclosed.trans hopen) hroom
      have hrun : (system α n).run s [.read id true, .emit id] = some _ :=
        Option.bind_eq_some_iff.mpr ⟨_, hread, Option.bind_eq_some_iff.mpr ⟨_, hstep, rfl⟩⟩
      refine ⟨_, _, hrun, rfl, fun j hj => ?_⟩
      refine (getElem?_setSubscriber hsub').trans ((if_neg hj).trans ?_)
      exact (getElem?_setSubscriber hsub).trans (if_neg hj)

theorem exists_unlock (hs : Valid s) {item : α} {todo : List Nat}
    (hproc : s.process = .emitting item todo)
    (hreads : ∀ id ∈ todo, ∀ sub, s.subscribers[id]? = some sub → sub.buffer.isFull = true →
      sub.reader = .reading) :
    ∃ events t, (system α n).run s events = some t ∧ t.locked = false := by
  induction todo generalizing s with
  | nil =>
      refine ⟨[.unlock], { s with process := .receiving }, ?_, rfl⟩
      refine Option.bind_eq_some_iff.mpr ⟨_, ?_, rfl⟩
      simp only [system, step, hproc]
  | cons id todo ih =>
      have htodo : s.todo = id :: todo := by rw [State.todo, hproc]
      have hnot : id ∉ todo := (List.nodup_cons.mp (htodo ▸ hs.todo_nodup)).1
      have hdone : s.done = false := hs.not_done (by rw [hproc]; rintro ⟨⟩)
      obtain ⟨sub, hsub, hopen⟩ :=
        hs.opened hdone id (hs.todo_subset (htodo ▸ List.mem_cons_self))
      obtain ⟨first, t, hfirst, htproc, hothers⟩ :=
        exists_emit hproc hsub hopen (hreads id List.mem_cons_self sub hsub)
      obtain ⟨rest, u, hrest, hfree⟩ := ih (hs.run hfirst) htproc (by
        intro j hj sub' hsub' hfull
        have hne : j ≠ id := fun heq => hnot (heq ▸ hj)
        rw [hothers j hne] at hsub'
        exact hreads j (List.mem_cons_of_mem _ hj) sub' hsub' hfull)
      refine ⟨first ++ rest, u, ?_, hfree⟩
      rw [System.run_append, hfirst, Option.bind_some, hrest]

/-- Whenever the process has the mutex: it can be released some time exactly if every client
still to be served has room in its buffer or goes on reading. If one with a full buffer has left
its loop, no run releases the mutex, which that client waits for in order to unsubscribe, and
nobody can subscribe or unsubscribe from then on. -/
theorem unlock_iff (events : List (Event α)) (s : State α n)
    (hrun : (system α n).run (newObservable α n) events = some s) (item : α) (todo : List Nat)
    (hproc : s.process = .emitting item todo) :
    (∃ later t, (system α n).run s later = some t ∧ t.locked = false) ↔
      ∀ id ∈ todo, ∀ sub, s.subscribers[id]? = some sub → sub.buffer.isFull = true →
        sub.reader = .reading := by
  have hvalid : Valid s := valid_newObservable.run hrun
  constructor
  · rintro ⟨later, t, hlater, hfree⟩ id hid sub hsub hfull
    by_contra hreader
    have hblocked : Blocked id s := ⟨item, todo, sub, hproc, hid, hsub, hfull, hreader⟩
    cases (hblocked.run hlater).locked.symm.trans hfree
  · exact fun hreads => exists_unlock hvalid hproc hreads

theorem unlock_iff_first :
    ∃ s : State Nat 300, (system Nat 300).run (newObservable Nat 300)
        [.subscribe, .print 7, .receive, .lock] = some s ∧
      ∃ later t, (system Nat 300).run s later = some t ∧ t.locked = false := by
  refine ⟨_, rfl, ?_⟩
  refine (unlock_iff [.subscribe, .print 7, .receive, .lock] _ rfl 7 [0] rfl).mpr ?_
  intro id hid sub hsub hfull
  cases List.mem_singleton.mp hid
  cases hsub
  cases hfull

/-! ## How it comes to that -/

/-- The process is idle, and of the `k` items sent to the only client `m` were read. -/
structure Fed (k m : Nat) (reader : Reader) (s : State α n) : Prop where
  process : s.process = .receiving
  listener : s.listener = [0]
  iterable : s.iterable.closed = false ∧ s.iterable.taken = s.iterable.sent.length
  subscriber : ∃ sub, s.subscribers = [sub] ∧ sub.buffer.closed = false ∧
    sub.buffer.sent.length = k ∧ sub.buffer.taken = m ∧ sub.reader = reader

theorem Fed.take {k m : Nat} {reader : Reader} (hs : Fed k m reader s) (hn : 0 < n) (x : α) :
    ∃ iterable : Channel α n, iterable.closed = false ∧ iterable.taken = iterable.sent.length ∧
      (system α n).run s [.print x, .receive, .lock] =
        some { s with iterable, process := .emitting x [0] } := by
  obtain ⟨c, d, hsend, hreceive, hclosed, htaken⟩ :=
    Channel.exists_send_receive hs.iterable.1 hs.iterable.2 hn x
  refine ⟨d, hclosed, htaken, ?_⟩
  simp [system, System.run, step, hs.iterable.1, hsend, hs.process, hreceive, hs.listener]

theorem Fed.round {k m : Nat} {reader : Reader} (hs : Fed k m reader s) (hn : 0 < n)
    (hroom : k < m + 200) (x : α) :
    ∃ events t, (system α n).run s events = some t ∧ Fed (k + 1) m reader t := by
  obtain ⟨iterable, hopen, hempty, htake⟩ := hs.take hn x
  obtain ⟨sub, hsub, hclosed, hsent, htaken, hreader⟩ := hs.subscriber
  have hnot : sub.buffer.isFull = false := beq_eq_false_iff_ne.mpr (by omega)
  obtain ⟨buffer, hsend⟩ := Channel.exists_send hclosed hnot x
  obtain ⟨-, hsent', htaken', hclosed'⟩ := Channel.send_eq_some hsend
  have hemit : (system α n).run { s with iterable, process := .emitting x [0] } [.emit 0, .unlock] =
      some { s with iterable, process := .receiving, subscribers := [{ sub with buffer }] } := by
    simp [system, System.run, step, emit, hsub, hsend, State.setSubscriber]
  have hrun : (system α n).run s ([.print x, .receive, .lock] ++ [.emit 0, .unlock]) =
      some { s with iterable, process := .receiving, subscribers := [{ sub with buffer }] } := by
    rw [System.run_append, htake, Option.bind_some, hemit]
  refine ⟨_, _, hrun,
    ⟨rfl, hs.listener, ⟨hopen, hempty⟩, { sub with buffer }, rfl, ?_, ?_, ?_, hreader⟩⟩
  · exact hclosed'.trans hclosed
  · change buffer.sent.length = k + 1
    rw [hsent', List.length_append, hsent]
    rfl
  · exact htaken'.trans htaken

theorem Fed.rounds {k m : Nat} {reader : Reader} (hs : Fed k m reader s) (hn : 0 < n) (x : α)
    (j : Nat) (hroom : k + j ≤ m + 200) :
    ∃ events t, (system α n).run s events = some t ∧ Fed (k + j) m reader t := by
  induction j with
  | zero => exact ⟨[], s, rfl, hs⟩
  | succ j ih =>
      obtain ⟨first, t, hfirst, ht⟩ := ih (by omega)
      obtain ⟨last, u, hlast, hu⟩ := ht.round hn (by omega) x
      refine ⟨first ++ last, u, ?_, hu⟩
      rw [System.run_append, hfirst, Option.bind_some, hlast]

theorem fed_subscribe : Fed 0 0 .reading (subscribe (newObservable α n)) :=
  ⟨rfl, rfl, ⟨rfl, rfl⟩, newSubscriber α, rfl, rfl, rfl, rfl, rfl⟩

/-- A write to a slow client fails, and two more items come before it unsubscribes: the mutex is
never released. -/
theorem exists_blocked (hn : 0 < n) (x : α) :
    ∃ events s, (system α n).run (newObservable α n) events = some s ∧ Blocked 0 s := by
  obtain ⟨first, s₁, hfirst, hs₁⟩ := (fed_subscribe (α := α) (n := n)).rounds hn x 200 (by decide)
  obtain ⟨sub, hsub, hclosed, hsent, htaken, hreader⟩ := hs₁.subscriber
  have hfull : sub.buffer.isFull = true := beq_iff_eq.mpr (by omega)
  obtain ⟨y, buffer, hreceive, -, -⟩ := Channel.exists_receive hfull (by decide)
  obtain ⟨-, hsent', htaken', hclosed'⟩ := Channel.receive_eq_some hreceive
  have hread : (system α n).step s₁ (.read 0 false) =
      some { s₁ with subscribers := [⟨buffer, .leaving⟩] } := by
    simp [system, step, hsub, hreader, hreceive, State.setSubscriber]
  have hfed : Fed 200 1 .leaving { s₁ with subscribers := [⟨buffer, .leaving⟩] } := by
    refine ⟨hs₁.process, hs₁.listener, hs₁.iterable, ⟨buffer, .leaving⟩, rfl, ?_, ?_, ?_, rfl⟩
    · exact hclosed'.trans hclosed
    · exact (congrArg List.length hsent').trans hsent
    · exact htaken'.trans (congrArg (· + 1) htaken)
  obtain ⟨second, s₂, hsecond, hs₂⟩ := hfed.round hn (by decide) x
  obtain ⟨iterable, -, -, htake⟩ := hs₂.take hn x
  obtain ⟨sub₂, hsub₂, -, hsent₂, htaken₂, hreader₂⟩ := hs₂.subscriber
  have hrun : (system α n).run (newObservable α n)
      (.subscribe :: (first ++ .read 0 false :: (second ++ [.print x, .receive, .lock]))) =
        some { s₂ with iterable, process := .emitting x [0] } := by
    rw [System.run]
    change (system α n).run (subscribe (newObservable α n)) _ = _
    rw [System.run_append, hfirst, Option.bind_some, System.run, hread, Option.bind_some,
      System.run_append, hsecond, Option.bind_some, htake]
  refine ⟨_, _, hrun, x, [0], sub₂, rfl, List.mem_cons_self, ?_, ?_, ?_⟩
  · exact congrArg (·[0]?) hsub₂
  · exact beq_iff_eq.mpr (by omega)
  · rw [hreader₂]
    rintro ⟨⟩

end RuleBaseProxy.Observable
