import RuleBaseProxy.Lib.ChunkedStream
import RuleBaseProxy.Lib.Duplex

/-! # A program on a connection

What the other side sends arrives in segments of any lengths, and every read of
a program is an `io.ReadFull`. Where the segments are cut makes no difference:
the program returns what it returns on the bytes themselves.
-/

namespace Duplex

open ChunkedStream

variable {β : Type u} {ρ : Type v}

/-- The program alone with the segments that arrive; its writes go through. -/
def Prog.onConn : Prog β ρ → List (List β) → Except ReadError ρ × List (List β)
  | .done r, segs => (.ok r, segs)
  | .read n k, segs =>
      match readFull segs n with
      | (.ok bs, segs) => (k bs).onConn segs
      | (.error e, segs) => (.error e, segs)
  | .write _ next, segs => next.onConn segs

theorem exec_of_onConn {p : Prog β ρ} {segs segs' : List (List β)} {r : ρ}
    (h : p.onConn segs = (.ok r, segs')) :
    ∃ out, p.exec segs.flatten = ⟨.done r, segs'.flatten, out⟩ := by
  induction p generalizing segs with
  | done r' =>
      cases h
      exact ⟨[], rfl⟩
  | read n k ih =>
      rw [Prog.onConn] at h
      cases hread : readFull segs n with
      | mk result left =>
          rw [hread] at h
          cases result with
          | error e => cases h
          | ok bs =>
              have hbytes := readFull_eq_ok hread
              have hrest := ih bs h
              rw [hbytes.1, exec_read_append k hbytes.2]
              exact hrest
  | write bs next ih =>
      have hnext := ih h
      rcases hnext with ⟨out, hout⟩
      exact ⟨bs ++ out, by rw [exec_write, hout, Standing.emit]⟩

theorem onConn_of_exec {p : Prog β ρ} {segs : List (List β)} {r : ρ} {rest out : List β}
    (h : p.exec segs.flatten = ⟨.done r, rest, out⟩) :
    ∃ segs', p.onConn segs = (.ok r, segs') ∧ segs'.flatten = rest := by
  induction p generalizing segs out with
  | done r' =>
      cases h
      exact ⟨segs, rfl, rfl⟩
  | read n k ih =>
      rcases exec_read_done h with ⟨bs, input, hn, hsegs, hexec⟩
      rcases readFull_append hsegs hn with ⟨left, hread, hleft⟩
      rw [Prog.onConn, hread]
      exact ih bs (by rw [hleft]; exact hexec)
  | write bs next ih =>
      rcases exec_write_done h with ⟨out', -, hexec⟩
      exact ih hexec

theorem onConn_eq_error {p : Prog β ρ} {segs segs' : List (List β)} {e : ReadError}
    (h : p.onConn segs = (.error e, segs')) : segs' = [] := by
  induction p generalizing segs with
  | done r => cases h
  | read n k ih =>
      rw [Prog.onConn] at h
      cases hread : readFull segs n with
      | mk result left =>
          rw [hread] at h
          cases result with
          | ok bs => exact ih bs h
          | error e' =>
              cases h
              exact (readFull_eq_error hread).1
  | write bs next ih => exact ih h

theorem onConn_length_le (p : Prog β ρ) (segs : List (List β)) :
    (p.onConn segs).2.length ≤ segs.length := by
  induction p generalizing segs with
  | done r => exact Nat.le_refl _
  | read n k ih =>
      have hfull := readFull_length_le segs n
      rw [Prog.onConn]
      cases hread : readFull segs n with
      | mk result left =>
          rw [hread] at hfull
          cases result with
          | ok bs => exact Nat.le_trans (ih bs left) hfull
          | error e => exact hfull
  | write bs next ih => exact ih segs

/-- However the bytes are cut into segments, the program returns what it returns on the
bytes, and leaves the same. -/
theorem onConn_ok_iff {p : Prog β ρ} {segs : List (List β)} {r : ρ} {rest : List β} :
    (∃ segs', p.onConn segs = (.ok r, segs') ∧ segs'.flatten = rest) ↔
      ∃ out, p.exec segs.flatten = ⟨.done r, rest, out⟩ := by
  constructor
  · rintro ⟨segs', hconn, rfl⟩
    exact exec_of_onConn hconn
  · rintro ⟨out, hexec⟩
    exact onConn_of_exec hexec

end Duplex
