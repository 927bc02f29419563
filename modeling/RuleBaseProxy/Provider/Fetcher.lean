import RuleBaseProxy.Lib.Transition

/-! # Provider updates

`fetcher.Update` reads the source, compares its hash with `f.hash`, parses,
writes the local copy and stores the new hash; installing the parsed proxies
with `onUpdate` is left to the caller. `pullLoop` and the API call it without a
lock, so the steps of any number of updates interleave. `Initial` starts
`pullLoop` before the first proxies are installed and takes part as one more
update that has stored its hash.
-/

namespace RuleBaseProxy.Provider

open TransitionSystem

/-- What the fetcher uses: the hash function, and the parser with `none` for an error. -/
structure Source (β : Type u) (η : Type v) (π : Type w) where
  md5 : β → η
  parser : β → Option π

inductive Phase (β : Type u) (π : Type w) where
  /-- The source is read. -/
  | fetched (buf : β)
  /-- The hash was a new one and the content parsed. -/
  | parsed (buf : β) (elm : π)
  /-- `f.hash` is written; `Update` has returned to its caller. -/
  | stored (buf : β) (elm : π)

structure State (β : Type u) (η : Type v) (π : Type w) where
  hash : η
  proxies : π
  /-- The content that `proxies` was parsed from; none before the first installation. -/
  content : Option β
  /-- The updates in progress. -/
  updates : Nat → Option (Phase β π)

inductive Action (β : Type u) where
  /-- An update starts: `vehicle.Read` returns. A read that fails changes nothing. -/
  | read (i : Nat) (buf : β)
  /-- The comparison with `f.hash`, and the parser. -/
  | compare (i : Nat)
  /-- `safeWrite`, and the new hash if it succeeds. -/
  | store (i : Nat) (wrote : Bool)
  /-- `onUpdate`. -/
  | install (i : Nat)

variable {β : Type u} {η : Type v} {π : Type w} [DecidableEq η]

def State.setUpdate (s : State β η π) (i : Nat) (phase : Option (Phase β π)) : State β η π :=
  { s with updates := Function.update s.updates i phase }

def system (src : Source β η π) : System (State β η π) (Action β) where
  step s
    | .read i buf =>
        match s.updates i with
        | none => some (s.setUpdate i (some (.fetched buf)))
        | _ => none
    | .compare i =>
        match s.updates i with
        | some (.fetched buf) =>
            if s.hash = src.md5 buf then some (s.setUpdate i none)
            else some (s.setUpdate i ((src.parser buf).map (.parsed buf)))
        | _ => none
    | .store i wrote =>
        match s.updates i with
        | some (.parsed buf elm) =>
            if wrote then
              some { s.setUpdate i (some (.stored buf elm)) with hash := src.md5 buf }
            else some (s.setUpdate i none)
        | _ => none
    | .install i =>
        match s.updates i with
        | some (.stored buf elm) =>
            some { s.setUpdate i none with proxies := elm, content := some buf }
        | _ => none

/-- `fetcher.Initial` has returned `elm` for `buf`, and `pullLoop` runs. -/
def initial (src : Source β η π) (nothing : π) (buf : β) (elm : π) : State β η π :=
  (State.mk (src.md5 buf) nothing none fun _ => none).setUpdate 0 (some (.stored buf elm))

/-! ## What is to hold -/

/-- The hash is that of the content whose parse result is installed. -/
def HashMatches (src : Source β η π) (s : State β η π) : Prop :=
  ∃ buf, s.content = some buf ∧ s.hash = src.md5 buf ∧ src.parser buf = some s.proxies

/-- Some update has stored its hash and has not installed its proxies. -/
def Pending (s : State β η π) (i : Nat) : Prop := ∃ buf elm, s.updates i = some (.stored buf elm)

def MatchesAtRest (src : Source β η π) (s : State β η π) : Prop :=
  (∀ i, s.updates i = none) → HashMatches src s

/-- The property already between updates that have yet to store their hash. -/
def MatchesUnlessPending (src : Source β η π) (s : State β η π) : Prop :=
  (∀ i, ¬ Pending s i) → HashMatches src s

/-- The last update to install is the last one to have stored: unless another
installation is still to come, `f.hash` is the hash this update stored. -/
def LastInstallsLast (src : Source β η π) (s : State β η π) : Action β → Prop
  | .install i =>
      (∀ j, j ≠ i → ¬ Pending s j) → ∀ buf elm, s.updates i = some (.stored buf elm) →
        s.hash = src.md5 buf
  | _ => True

/-! ## What a step does -/

variable {src : Source β η π} {s t : State β η π} {i : Nat}

theorem step_read {buf : β} (h : (system src).step s (.read i buf) = some t) :
    s.updates i = none ∧ t = s.setUpdate i (some (.fetched buf)) := by
  simp only [system] at h
  split at h
  · cases h
    exact ⟨‹_›, rfl⟩
  · cases h

theorem step_compare (h : (system src).step s (.compare i) = some t) :
    ∃ buf, s.updates i = some (.fetched buf) ∧
      (t = s.setUpdate i none ∨
        ∃ elm, src.parser buf = some elm ∧ t = s.setUpdate i (some (.parsed buf elm))) := by
  simp only [system] at h
  split at h
  · rename_i buf hi
    refine ⟨buf, hi, ?_⟩
    split at h
    · cases h
      exact Or.inl rfl
    · cases h
      cases hparse : src.parser buf with
      | none => exact Or.inl rfl
      | some elm => exact Or.inr ⟨elm, rfl, rfl⟩
  · cases h

theorem step_store {wrote : Bool} (h : (system src).step s (.store i wrote) = some t) :
    ∃ buf elm, s.updates i = some (.parsed buf elm) ∧
      (t = s.setUpdate i none ∨
        t = { s.setUpdate i (some (.stored buf elm)) with hash := src.md5 buf }) := by
  simp only [system] at h
  split at h
  · rename_i buf elm hi
    refine ⟨buf, elm, hi, ?_⟩
    split at h
    · cases h
      exact Or.inr rfl
    · cases h
      exact Or.inl rfl
  · cases h

theorem step_install (h : (system src).step s (.install i) = some t) :
    ∃ buf elm, s.updates i = some (.stored buf elm) ∧
      t = { s.setUpdate i none with proxies := elm, content := some buf } := by
  simp only [system] at h
  split at h
  · rename_i buf elm hi
    cases h
    exact ⟨buf, elm, hi, rfl⟩
  · cases h

/-! ## Which interleavings keep the hash right -/

/-- What an update carries along was parsed from its content. -/
def CarriesParsed (src : Source β η π) (s : State β η π) : Prop :=
  ∀ i buf elm, s.updates i = some (.parsed buf elm) ∨ s.updates i = some (.stored buf elm) →
    src.parser buf = some elm

omit [DecidableEq η] in
theorem carriesParsed_setUpdate {phase : Option (Phase β π)} (hs : CarriesParsed src s)
    (hphase : ∀ buf elm, phase = some (.parsed buf elm) ∨ phase = some (.stored buf elm) →
      src.parser buf = some elm) : CarriesParsed src (s.setUpdate i phase) := by
  intro j buf elm h
  obtain hj | hj := h
  · obtain ⟨-, heq⟩ | ⟨-, hj⟩ := eq_or_of_update hj
    · exact hphase buf elm (Or.inl heq)
    · exact hs j buf elm (Or.inl hj)
  · obtain ⟨-, heq⟩ | ⟨-, hj⟩ := eq_or_of_update hj
    · exact hphase buf elm (Or.inr heq)
    · exact hs j buf elm (Or.inr hj)

theorem carriesParsed_step {a : Action β} (hs : CarriesParsed src s)
    (h : (system src).step s a = some t) : CarriesParsed src t := by
  cases a with
  | read i buf =>
      obtain ⟨-, rfl⟩ := step_read h
      exact carriesParsed_setUpdate hs (by simp)
  | compare i =>
      obtain ⟨buf, -, rfl | ⟨elm, hparse, rfl⟩⟩ := step_compare h
      · exact carriesParsed_setUpdate hs (by simp)
      · refine carriesParsed_setUpdate hs fun buf' elm' heq => ?_
        obtain ⟨⟨⟩⟩ | ⟨⟨⟩⟩ := heq
        exact hparse
  | store i wrote =>
      obtain ⟨buf, elm, hi, rfl | rfl⟩ := step_store h
      · exact carriesParsed_setUpdate hs (by simp)
      · refine carriesParsed_setUpdate hs fun buf' elm' heq => ?_
        obtain ⟨⟨⟩⟩ | ⟨⟨⟩⟩ := heq
        exact hs i buf elm (Or.inl hi)
  | install i =>
      obtain ⟨buf, elm, -, rfl⟩ := step_install h
      exact carriesParsed_setUpdate hs (by simp)

omit [DecidableEq η] in
theorem pending_setUpdate {phase : Option (Phase β π)} {j : Nat} :
    Pending (s.setUpdate i phase) j ↔
      j = i ∧ (∃ buf elm, phase = some (.stored buf elm)) ∨ j ≠ i ∧ Pending s j := by
  constructor
  · intro h
    obtain ⟨buf, elm, hj⟩ := h
    obtain ⟨rfl, heq⟩ | ⟨hne, hj⟩ := eq_or_of_update hj
    · exact Or.inl ⟨rfl, buf, elm, heq⟩
    · exact Or.inr ⟨hne, buf, elm, hj⟩
  · intro h
    obtain ⟨rfl, buf, elm, heq⟩ | ⟨hne, buf, elm, hj⟩ := h
    · exact ⟨buf, elm, by simp [State.setUpdate, heq]⟩
    · exact ⟨buf, elm, by simp [State.setUpdate, hne, hj]⟩

omit [DecidableEq η] in
/-- A step of an update that has not stored its hash, and does not, touches nothing else. -/
theorem matchesUnlessPending_setUpdate {phase : Option (Phase β π)}
    (hs : MatchesUnlessPending src s) (hi : ¬ Pending s i) :
    MatchesUnlessPending src (s.setUpdate i phase) := by
  intro hnone
  refine hs fun j hj => ?_
  by_cases heq : j = i
  · subst heq
    exact hi hj
  · exact hnone j (pending_setUpdate.mpr (Or.inr ⟨heq, hj⟩))

omit [DecidableEq η] in
theorem not_pending_of_ne {phase : Option (Phase β π)} (hi : s.updates i = phase)
    (hphase : ∀ buf elm, phase ≠ some (.stored buf elm)) : ¬ Pending s i := by
  intro h
  obtain ⟨buf, elm, hstored⟩ := h
  exact hphase buf elm (hi ▸ hstored)

theorem matchesUnlessPending_step_iff {a : Action β} (hs : CarriesParsed src s)
    (hp : MatchesUnlessPending src s) (h : (system src).step s a = some t) :
    MatchesUnlessPending src t ↔ LastInstallsLast src s a := by
  cases a with
  | read i buf =>
      obtain ⟨hi, rfl⟩ := step_read h
      have hnot := not_pending_of_ne hi (by simp)
      exact ⟨fun _ => trivial, fun _ => matchesUnlessPending_setUpdate hp hnot⟩
  | compare i =>
      refine ⟨fun _ => trivial, fun _ => ?_⟩
      obtain ⟨buf, hi, rfl | ⟨elm, -, rfl⟩⟩ := step_compare h
      · exact matchesUnlessPending_setUpdate hp (not_pending_of_ne hi (by simp))
      · exact matchesUnlessPending_setUpdate hp (not_pending_of_ne hi (by simp))
  | store i wrote =>
      refine ⟨fun _ => trivial, fun _ => ?_⟩
      obtain ⟨buf, elm, hi, rfl | rfl⟩ := step_store h
      · exact matchesUnlessPending_setUpdate hp (not_pending_of_ne hi (by simp))
      · intro hnone
        have hpend : Pending (s.setUpdate i (some (.stored buf elm))) i :=
          pending_setUpdate.mpr (Or.inl ⟨rfl, buf, elm, rfl⟩)
        exact absurd hpend (hnone i)
  | install i =>
      obtain ⟨buf, elm, hi, rfl⟩ := step_install h
      have hothers : (∀ j, ¬ Pending (s.setUpdate i none) j) ↔ ∀ j, j ≠ i → ¬ Pending s j := by
        refine forall_congr' fun j => ?_
        rw [pending_setUpdate]
        simp
      constructor
      · intro ht hlast buf' elm' hi'
        cases hi.symm.trans hi'
        obtain ⟨_, hbuf, hhash, -⟩ := ht (hothers.mpr hlast)
        cases hbuf
        exact hhash
      · intro hlast hnone
        exact ⟨buf, rfl, hlast (hothers.mp hnone) buf elm hi, hs i buf elm (Or.inr hi)⟩

omit [DecidableEq η] in
theorem carriesParsed_initial {nothing : π} {buf : β} {elm : π}
    (hparse : src.parser buf = some elm) : CarriesParsed src (initial src nothing buf elm) := by
  refine carriesParsed_setUpdate (fun i _ _ h => ?_) fun buf' elm' heq => ?_
  · obtain ⟨⟨⟩⟩ | ⟨⟨⟩⟩ := h
  · obtain ⟨⟨⟩⟩ | ⟨⟨⟩⟩ := heq
    exact hparse

omit [DecidableEq η] in
theorem matchesUnlessPending_initial (nothing : π) (buf : β) (elm : π) :
    MatchesUnlessPending src (initial src nothing buf elm) := by
  intro hnone
  exact absurd (pending_setUpdate.mpr (Or.inl ⟨rfl, buf, elm, rfl⟩)) (hnone 0)

/-- Exactly the interleavings in which the last to install has been the last to
store keep the hash right whenever no installation is to come. -/
theorem matchesUnlessPending_iff {nothing : π} {buf : β} {elm : π}
    (hparse : src.parser buf = some elm) (as : List (Action β)) :
    (system src).Always (MatchesUnlessPending src) (initial src nothing buf elm) as ↔
      (system src).Guarded (LastInstallsLast src) (initial src nothing buf elm) as := by
  have hInv : ∀ s a t, CarriesParsed src s → MatchesUnlessPending src s →
      (system src).step s a = some t → LastInstallsLast src s a → CarriesParsed src t :=
    fun _ _ _ hs _ hstep _ => carriesParsed_step hs hstep
  have hP : ∀ s a t, CarriesParsed src s → MatchesUnlessPending src s →
      (system src).step s a = some t →
        (MatchesUnlessPending src t ↔ LastInstallsLast src s a) :=
    fun _ _ _ hs hp hstep => matchesUnlessPending_step_iff hs hp hstep
  exact (system src).always_iff_guarded hInv hP as (carriesParsed_initial hparse)
    (matchesUnlessPending_initial nothing buf elm)

/-- Such interleavings leave, whenever no update is in progress, the hash of the
content whose parse result is installed. -/
theorem hash_matches_of_lastInstallsLast {nothing : π} {buf : β} {elm : π}
    (hparse : src.parser buf = some elm) (as : List (Action β))
    (hG : (system src).Guarded (LastInstallsLast src) (initial src nothing buf elm) as) :
    (system src).Always (MatchesAtRest src) (initial src nothing buf elm) as := by
  refine ((matchesUnlessPending_iff hparse as).mpr hG).mono _ fun s hs hrest => ?_
  refine hs fun i hi => ?_
  obtain ⟨_, _, hstored⟩ := hi
  rw [hrest i] at hstored
  cases hstored

/-! ## Two updates that cross -/

/-- Contents are their own hash and their own parse result. -/
def plainSource : Source Nat Nat Nat := ⟨id, some⟩

theorem hash_matches_one_by_one :
    (system plainSource).Always (MatchesAtRest plainSource) (initial plainSource 0 10 10)
      [.install 0, .read 1 20, .compare 1, .store 1 true, .install 1] := by
  refine hash_matches_of_lastInstallsLast rfl _ ?_
  refine System.Guarded.cons _ rfl ?_ ?_
  · intro _ buf elm hi
    cases hi
    rfl
  refine System.Guarded.cons _ rfl trivial ?_
  refine System.Guarded.cons _ rfl trivial ?_
  refine System.Guarded.cons _ rfl trivial ?_
  refine System.Guarded.cons _ rfl ?_ trivial
  intro _ buf elm hi
  cases hi
  rfl

/-- `pullLoop` reads 20, the API reads 30; each stores its hash, then the API
installs first. The hash is that of 30, the proxies are those of 20, and every
later update of the same content is skipped. -/
theorem crossing_updates_mismatch :
    ¬ ∀ as : List (Action Nat),
      (system plainSource).Always (MatchesAtRest plainSource) (initial plainSource 0 10 10) as := by
  intro hall
  refine (system plainSource).not_always_of_run ⟨_, rfl, fun hbad => ?_⟩
    (hall [.install 0, .read 1 20, .read 2 30, .compare 1, .compare 2, .store 1 true,
      .store 2 true, .install 2, .install 1])
  obtain ⟨buf, hbuf, hhash, -⟩ := hbad fun i =>
    match i with
    | 0 => rfl
    | 1 => rfl
    | 2 => rfl
    | _ + 3 => rfl
  cases hbuf
  cases hhash

end RuleBaseProxy.Provider
