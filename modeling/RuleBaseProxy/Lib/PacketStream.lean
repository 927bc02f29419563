import RuleBaseProxy.Lib.ChunkedStream

/-! # Packets handed out in runs

A reader hands out each packet of a stream in one run or, where a buffer or a
read of the connection is too short for it, in several, and every run under the
label of its packet. `Conveys` says that a sequence of reads has done that, and
what it has left; bytes read and bytes left are the bytes sent.
-/

namespace PacketStream

variable {τ : Type u} {β : Type v} {ε : Type w} {σ : Type x}

structure Packet (τ : Type u) (β : Type v) where
  label : τ
  payload : List β
deriving DecidableEq

def Packet.tagged (p : Packet τ β) : List (τ × β) := p.payload.map (p.label, ·)

@[simp] theorem Packet.map_snd_tagged (p : Packet τ β) : p.tagged.map Prod.snd = p.payload := by
  simp [Packet.tagged, Function.comp_def]

/-- What a reader has yet to hand out: the rest of a packet it has begun, then packets. -/
structure Left (τ : Type u) (β : Type v) where
  begun : Option (Packet τ β)
  packets : List (Packet τ β)

namespace Left

def all (packets : List (Packet τ β)) : Left τ β := ⟨none, packets⟩

def unread (l : Left τ β) : Nat := (l.begun.map fun p => p.payload.length).getD 0

def tagged (l : Left τ β) : List (τ × β) :=
  (l.begun.map Packet.tagged).getD [] ++ l.packets.flatMap Packet.tagged

def bytes (l : Left τ β) : List β := l.tagged.map Prod.snd

theorem bytes_all (packets : List (Packet τ β)) :
    (all packets).bytes = packets.flatMap Packet.payload := by
  simp [bytes, tagged, all, List.map_flatMap]

/-- `bs` is left of a packet; an empty rest is no packet. -/
def resume (label : τ) (bs : List β) (packets : List (Packet τ β)) : Left τ β :=
  ⟨if bs.isEmpty then none else some ⟨label, bs⟩, packets⟩

@[simp] theorem resume_nil (label : τ) (packets : List (Packet τ β)) :
    resume label [] packets = all packets := rfl

theorem resume_of_ne_nil {label : τ} {bs : List β} {packets : List (Packet τ β)} (h : bs ≠ []) :
    resume label bs packets = ⟨some ⟨label, bs⟩, packets⟩ := by
  cases bs with
  | nil => exact absurd rfl h
  | cons b bs => rfl

@[simp] theorem unread_resume (label : τ) (bs : List β) (packets : List (Packet τ β)) :
    (resume label bs packets).unread = bs.length := by
  cases bs <;> rfl

theorem tagged_resume (label : τ) (bs : List β) (packets : List (Packet τ β)) :
    (resume label bs packets).tagged =
      (Packet.mk label bs).tagged ++ packets.flatMap Packet.tagged := by
  cases bs <;> rfl

end Left

inductive Serves (eof : ε) : Left τ β → Except ε (Packet τ β) → Left τ β → Prop where
  | resume {label : τ} {out rest : List β} {packets : List (Packet τ β)} :
      Serves eof ⟨some ⟨label, out ++ rest⟩, packets⟩ (.ok ⟨label, out⟩)
        (.resume label rest packets)
  | next {label : τ} {out rest : List β} {packets : List (Packet τ β)} :
      Serves eof (.all (⟨label, out ++ rest⟩ :: packets)) (.ok ⟨label, out⟩)
        (.resume label rest packets)
  | finish : Serves eof (.all []) (.error eof) (.all [])

/-- As much of the packet as a buffer of `n` bytes takes. -/
theorem Serves.take_resume (eof : ε) (label : τ) {bs : List β} (hbs : bs ≠ [])
    (packets : List (Packet τ β)) (n : Nat) :
    Serves eof (.resume label bs packets) (.ok ⟨label, bs.take n⟩)
      (.resume label (bs.drop n) packets) := by
  have hserve : Serves eof ⟨some ⟨label, bs.take n ++ bs.drop n⟩, packets⟩
      (.ok ⟨label, bs.take n⟩) (.resume label (bs.drop n) packets) := .resume
  rw [List.take_append_drop] at hserve
  rw [Left.resume_of_ne_nil hbs]
  exact hserve

theorem Serves.take_next (eof : ε) (p : Packet τ β) (packets : List (Packet τ β)) (n : Nat) :
    Serves eof (.all (p :: packets)) (.ok ⟨p.label, p.payload.take n⟩)
      (.resume p.label (p.payload.drop n) packets) := by
  have hserve : Serves eof (.all (⟨p.label, p.payload.take n ++ p.payload.drop n⟩ :: packets))
      (.ok ⟨p.label, p.payload.take n⟩) (.resume p.label (p.payload.drop n) packets) := .next
  rw [List.take_append_drop] at hserve
  exact hserve

inductive Conveys (eof : ε) : Left τ β → List (Except ε (Packet τ β)) → Left τ β → Prop where
  | nil {l : Left τ β} : Conveys eof l [] l
  | cons {l l' l'' : Left τ β} {r : Except ε (Packet τ β)} {rs : List (Except ε (Packet τ β))} :
      Serves eof l r l' → Conveys eof l' rs l'' → Conveys eof l (r :: rs) l''

def runs (results : List (Except ε (Packet τ β))) : List (Packet τ β) :=
  results.filterMap Except.toOption

def runsTagged (results : List (Except ε (Packet τ β))) : List (τ × β) :=
  (runs results).flatMap Packet.tagged

def runsBytes (results : List (Except ε (Packet τ β))) : List β :=
  (runs results).flatMap Packet.payload

theorem map_snd_runsTagged (results : List (Except ε (Packet τ β))) :
    (runsTagged results).map Prod.snd = runsBytes results := by
  simp [runsTagged, runsBytes, List.map_flatMap]

/-! ## Nothing is lost -/

section Conveys

variable {eof e : ε} {l l' : Left τ β} {results : List (Except ε (Packet τ β))}

theorem Packet.tagged_append (label : τ) (out rest : List β) :
    (Packet.mk label (out ++ rest)).tagged =
      (Packet.mk label out).tagged ++ (Packet.mk label rest).tagged :=
  List.map_append

theorem Serves.tagged {r : Except ε (Packet τ β)} (h : Serves eof l r l') :
    runsTagged [r] ++ l'.tagged = l.tagged := by
  cases h with
  | resume | next =>
      rw [Left.tagged_resume]
      simp [runsTagged, runs, Except.toOption, Left.tagged, Left.all, Packet.tagged_append]
  | finish => rfl

/-- What was read and what is left make up what there was. -/
theorem Conveys.tagged (h : Conveys eof l results l') :
    runsTagged results ++ l'.tagged = l.tagged := by
  induction h with
  | nil => rfl
  | @cons l l' l'' r rs hserve _ ih =>
      have happend : runsTagged (r :: rs) = runsTagged [r] ++ runsTagged rs := by
        simp only [runsTagged, runs, ← List.flatMap_append, ← List.filterMap_append,
          List.singleton_append]
      rw [happend, List.append_assoc, ih, hserve.tagged]

theorem Conveys.bytes (h : Conveys eof l results l') : runsBytes results ++ l'.bytes = l.bytes := by
  rw [← map_snd_runsTagged, Left.bytes, ← List.map_append, h.tagged, Left.bytes]

theorem Conveys.of_all_nil (h : Conveys eof l results l') (hl : l = .all []) : l' = .all [] := by
  induction h with
  | nil => exact hl
  | cons hserve _ ih =>
      subst hl
      cases hserve
      exact ih rfl

theorem Conveys.of_error (h : Conveys eof l results l') (he : .error e ∈ results) :
    e = eof ∧ l' = .all [] := by
  induction h with
  | nil => cases he
  | cons hserve hrest ih =>
      rcases List.mem_cons.mp he with heq | he
      · subst heq
        cases hserve
        exact ⟨rfl, hrest.of_all_nil rfl⟩
      · exact ih he

theorem Conveys.runsTagged_of_error (h : Conveys eof l results l') (he : .error e ∈ results) :
    runsTagged results = l.tagged := by
  have htagged := h.tagged
  rw [(h.of_error he).2] at htagged
  simpa [Left.tagged, Left.all] using htagged

theorem Conveys.runsBytes_of_error (h : Conveys eof l results l') (he : .error e ∈ results) :
    runsBytes results = l.bytes := by
  rw [← map_snd_runsTagged, h.runsTagged_of_error he, Left.bytes]

end Conveys

/-! ## Readers -/

/-- Reads into buffers of these lengths: their results, and the reader after them. -/
def readAll {α : Type v} (read : σ → Nat → Except ε α × σ) : σ → List Nat → List (Except ε α) × σ
  | s, [] => ([], s)
  | s, n :: ns =>
      let (r, s) := read s n
      let (rs, s) := readAll read s ns
      (r :: rs, s)

/-- A reader that stands, by `Sim`, where packets are left. Every read into a buffer with
`Room` serves them, and one into a buffer that `Takes` uses up something of `rank`, unless it
finds the end. -/
structure Reads (eof : ε) (read : σ → Nat → Except ε (Packet τ β) × σ) (Sim : σ → Left τ β → Prop)
    (Room : Nat → Prop) (Takes : Nat → Bool) (rank : σ → Nat) : Prop where
  serves : ∀ s l n, Room n → Sim s l → ∃ l', Serves eof l (read s n).1 l' ∧ Sim (read s n).2 l'
  rank_le : ∀ s l n, Room n → Sim s l → rank (read s n).2 ≤ rank s
  takes : ∀ s l n, Room n → Takes n = true → Sim s l →
    (∃ e, (read s n).1 = .error e) ∨ rank (read s n).2 < rank s

namespace Reads

variable {read : σ → Nat → Except ε (Packet τ β) × σ} {Sim : σ → Left τ β → Prop} {eof : ε}
  {Room : Nat → Prop} {Takes : Nat → Bool} {rank : σ → Nat} {s : σ} {l : Left τ β}

theorem conveys (hreads : Reads eof read Sim Room Takes rank) (ns : List Nat)
    (hroom : ∀ n ∈ ns, Room n) (h : Sim s l) :
    ∃ l', Conveys eof l (readAll read s ns).1 l' ∧ Sim (readAll read s ns).2 l' := by
  induction ns generalizing s l with
  | nil => exact ⟨l, .nil, h⟩
  | cons n ns ih =>
      rcases hreads.serves s l n (hroom n List.mem_cons_self) h with ⟨l₁, hserve, hsim⟩
      rcases ih (fun m hm => hroom m (List.mem_cons_of_mem n hm)) hsim with ⟨l₂, hconvey, hsim₂⟩
      exact ⟨l₂, .cons hserve hconvey, hsim₂⟩

theorem error_mem (hreads : Reads eof read Sim Room Takes rank) (ns : List Nat)
    (hroom : ∀ n ∈ ns, Room n) (h : Sim s l) (hlong : rank s < ns.countP Takes) :
    ∃ e, .error e ∈ (readAll read s ns).1 := by
  induction ns generalizing s l with
  | nil => simp at hlong
  | cons n ns ih =>
      have hn := hroom n List.mem_cons_self
      rcases hreads.serves s l n hn h with ⟨l', -, hsim⟩
      have hle := hreads.rank_le s l n hn h
      rw [List.countP_cons] at hlong
      rw [readAll]
      have hrest : (∃ e, (read s n).1 = .error e) ∨ rank (read s n).2 < ns.countP Takes := by
        cases htake : Takes n with
        | false =>
            rw [if_neg (by simp [htake])] at hlong
            exact Or.inr (by omega)
        | true =>
            rw [if_pos htake] at hlong
            rcases hreads.takes s l n hn htake h with herror | hlt
            · exact Or.inl herror
            · exact Or.inr (by omega)
      rcases hrest with ⟨e, he⟩ | hlong'
      · exact ⟨e, by simp [he]⟩
      · rcases ih (fun m hm => hroom m (List.mem_cons_of_mem n hm)) hsim hlong' with ⟨e, he⟩
        exact ⟨e, List.mem_cons_of_mem _ he⟩

end Reads

end PacketStream
