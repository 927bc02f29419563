import RuleBaseProxy.Common.Structure
import Mathlib.Logic.Relation

/-! # When decoding panics

A run of `Decode` is a tree of calls of `decode`. `Started` says which calls it makes
itself, `Calls` which calls a call makes; both take into account that an error ends the
loop over the fields and the loop over a slice. A run panics exactly if one of these
calls panics by its own doing. Where all fields of the destination are exported and no
interface has methods, that is a null that has come to an int, a string, a bool, an
interface or a structure.
-/

namespace RuleBaseProxy.Structure

open Go Relation

structure Call where
  name : Str
  data : Src
  access : Access
  val : Val

def Call.run (env : Env) (c : Call) : Result := decode env c.data c.name c.access c.val

def Call.Ok (env : Env) (c : Call) : Prop := ∃ v, c.run env = some (v, none)

def elemCall (name : Str) (access : Access) (i : Nat) (x : Src) (y : Val) : Call :=
  ⟨elemName name i, x, access.index, y⟩

def keyCall (name : Str) (key : Ty) (k : Key) : Call := ⟨keyName name k, k.toSrc, .rw, key.zero⟩

def valueCall (name : Str) (elem : Ty) (k : Key) (v : Src) : Call :=
  ⟨keyName name k, v, .rw, elem.zero⟩

def fieldCall (name : Str) (f : Flat) (v : Src) : Call :=
  ⟨fieldPath name f.field.mapKey, v, .rw, f.val⟩

def topCall (f : Field) (val : Val) (value : Src) : Call := ⟨f.key, value, Access.rw.field f, val⟩

section Tree

variable (env : Env)

/-- The calls that the loop over a slice makes from element `i` on. -/
inductive ElemCalls (name : Str) (elem : Ty) (access : Access) :
    Nat → List Src → List Val → Call → Prop where
  | here {i : Nat} {x : Src} {xs : List Src} {ys : List Val} {y : Val} :
      place elem access ys = some y →
      ElemCalls name elem access i (x :: xs) ys (elemCall name access i x y)
  | later {i : Nat} {x : Src} {xs : List Src} {ys : List Val} {y : Val} {c : Call} :
      place elem access ys = some y → (elemCall name access i x y).Ok env →
      ElemCalls name elem access (i + 1) xs ys.tail c →
      ElemCalls name elem access i (x :: xs) ys c

/-- The loop over a slice that may not be set gets to where it appends, or to its end. -/
inductive Overruns (name : Str) (elem : Ty) (access : Access) :
    Nat → List Src → List Val → Prop where
  | done {i : Nat} {ys : List Val} : access ≠ .rw → Overruns name elem access i [] ys
  | append {i : Nat} {x : Src} {xs : List Src} {ys : List Val} :
      place elem access ys = none → Overruns name elem access i (x :: xs) ys
  | later {i : Nat} {x : Src} {xs : List Src} {ys : List Val} {y : Val} :
      place elem access ys = some y → (elemCall name access i x y).Ok env →
      Overruns name elem access (i + 1) xs ys.tail → Overruns name elem access i (x :: xs) ys

/-- The calls that a call makes, up to the first of them that panics. -/
inductive Calls : Call → Call → Prop where
  | elem {name : Str} {access : Access} {elem : Ty} {xs : List Src} {ys : List Val} {c : Call} :
      ElemCalls env name elem access 0 xs ys c → Calls ⟨name, .list xs, access, .slice elem ys⟩ c
  | key {name : Str} {access : Access} {key elem : Ty} {old : Option (List (Val × Val))}
      {m : List (Key × Src)} {k : Key} {v : Src} :
      m.lookup k = some v →
      Calls ⟨name, .map m, access, .map key elem old⟩ (keyCall name key k)
  | value {name : Str} {access : Access} {key elem : Ty} {old : Option (List (Val × Val))}
      {m : List (Key × Src)} {k : Key} {v : Src} :
      m.lookup k = some v → (keyCall name key k).Ok env → v.isNull = false →
      Calls ⟨name, .map m, access, .map key elem old⟩ (valueCall name elem k v)
  | field {name : Str} {access : Access} {fields : List (Field × Val)} {m : List (Key × Src)}
      {f : Flat} {v : Src} :
      f ∈ (collect [⟨[], access, fields⟩]).1 → rawMapVal env name m f.field.mapKey = some v →
      f.access = .rw → Calls ⟨name, .map m, access, .struct fields⟩ (fieldCall name f v)

/-- Kinds whose decoders ask for the type of the data, or set the destination to it. -/
def Val.nullPanics : Val → Bool
  | .int _ | .string _ | .bool _ | .iface _ _ | .struct _ => true
  | .slice _ _ | .map _ _ _ | .other _ => false

def Val.isScalar : Val → Bool
  | .int _ | .string _ | .bool _ | .iface _ _ => true
  | .slice _ _ | .map _ _ _ | .struct _ | .other _ => false

/-- The call panics by itself: on a null, on an interface that the data does not implement,
or on setting what may not be set. -/
inductive Faults : Call → Prop where
  | null {name : Str} {access : Access} {val : Val} :
      val.nullPanics = true → Faults ⟨name, .null, access, val⟩
  | methods {name : Str} {data : Src} {access : Access} {old : Option Src} :
      Faults ⟨name, data, access, .iface true old⟩
  | scalar {name : Str} {data : Src} {access : Access} {val : Val} :
      val.isScalar = true → access ≠ .rw → Call.Ok env ⟨name, data, .rw, val⟩ →
      Faults ⟨name, data, access, val⟩
  | slice {name : Str} {access : Access} {elem : Ty} {xs : List Src} {ys : List Val} :
      Overruns env name elem access 0 xs ys → Faults ⟨name, .list xs, access, .slice elem ys⟩
  | map {name : Str} {access : Access} {key elem : Ty} {old : Option (List (Val × Val))}
      {m : List (Key × Src)} :
      access ≠ .rw → Faults ⟨name, .map m, access, .map key elem old⟩

/-- The calls that `Decode` makes. -/
inductive Started (src : List (Str × Src)) : List (Field × Val) → Call → Prop where
  | here {f : Field} {val : Val} {fields : List (Field × Val)} {value : Src} :
      src.lookup f.key = some value → value.isNull = false →
      Started src ((f, val) :: fields) (topCall f val value)
  | skip {f : Field} {val : Val} {fields : List (Field × Val)} {c : Call} :
      ((src.lookup f.key).getD .null).isNull = true → f.omitempty = true →
      Started src fields c → Started src ((f, val) :: fields) c
  | later {f : Field} {val : Val} {fields : List (Field × Val)} {value : Src} {c : Call} :
      src.lookup f.key = some value → value.isNull = false → (topCall f val value).Ok env →
      Started src fields c → Started src ((f, val) :: fields) c

end Tree

/-! ## The data one level down -/

section Opened

variable {env : Env}

def opened (env : Env) : Src → Data
  | .null => .null
  | .bool b => .bool b
  | .int n => .int n
  | .str s => .str s
  | .list xs => .list (elems env xs)
  | .map m => .map (entries env m)

theorem decode_eq (src : Src) : decode env src = decodeData env (decodeKey env) (opened env src) := by
  cases src <;> rfl

theorem decodeKey_eq (k : Key) (name : Str) (access : Access) (val : Val) :
    decodeKey env k name access val = decode env k.toSrc name access val := by
  cases k <;> cases val <;> rfl

def elemOf (env : Env) (v : Src) : Elem := ⟨v, decode env v⟩

theorem elems_cons (x : Src) (xs : List Src) : elems env (x :: xs) = elemOf env x :: elems env xs := by
  rw [elems, elemOf]

theorem entries_eq (m : List (Key × Src)) :
    entries env m = m.map fun kv => (kv.1, elemOf env kv.2) := by
  induction m with
  | nil => rfl
  | cons kv m ih => rw [entries, ih, List.map_cons, elemOf]

theorem lookup_entries (m : List (Key × Src)) (k : Key) :
    (entries env m).lookup k = (m.lookup k).map (elemOf env) := by
  rw [entries_eq]
  induction m with
  | nil => rfl
  | cons kv m ih =>
      rw [List.map_cons, List.lookup_cons, List.lookup_cons]
      cases k == kv.1 with
      | true => rfl
      | false => exact ih

theorem keys_entries (m : List (Key × Src)) : (entries env m).map Prod.fst = m.map Prod.fst := by
  rw [entries_eq, List.map_map]
  rfl

theorem rawMapVal_entries (name : Str) (m : List (Key × Src)) (mapKey : Str) :
    rawMapVal env name (entries env m) mapKey = (rawMapVal env name m mapKey).map (elemOf env) := by
  unfold rawMapVal
  rw [lookup_entries, keys_entries]
  cases m.lookup (.str mapKey) with
  | some v => rfl
  | none =>
      simp only [Option.map_none, lookup_entries]
      rw [Option.map_bind]
      rfl

theorem ranged_entries (name : Str) (m : List (Key × Src)) :
    ranged env name (entries env m) = (ranged env name m).map fun kv => (kv.1, elemOf env kv.2) := by
  rw [ranged, ranged, keys_entries, List.map_filterMap]
  apply List.filterMap_congr
  intro k _
  rw [lookup_entries, Option.map_map, Option.map_map]
  rfl

theorem mem_of_lookup {κ : Type} [BEq κ] [LawfulBEq κ] {m : List (κ × Src)} {k : κ} {v : Src}
    (h : m.lookup k = some v) : (k, v) ∈ m := by
  rcases List.lookup_eq_some_iff.mp h with ⟨before, after, hm, -⟩
  rw [hm]
  exact List.mem_append_right before List.mem_cons_self

theorem mem_of_rawMapVal {name mapKey : Str} {m : List (Key × Src)} {v : Src}
    (h : rawMapVal env name m mapKey = some v) : ∃ k, (k, v) ∈ m := by
  unfold rawMapVal at h
  cases hlookup : m.lookup (.str mapKey) with
  | some w =>
      rw [hlookup] at h
      cases h
      exact ⟨_, mem_of_lookup hlookup⟩
  | none =>
      rw [hlookup] at h
      rcases Option.bind_eq_some_iff.mp h with ⟨k, _, hk⟩
      exact ⟨k, mem_of_lookup hk⟩

theorem mem_ranged {name : Str} {m : List (Key × Src)} {k : Key} {v : Src} :
    (k, v) ∈ ranged env name m ↔ m.lookup k = some v := by
  rw [ranged, List.mem_filterMap]
  constructor
  · intro ⟨k', _, hlookup⟩
    rcases Option.map_eq_some_iff.mp hlookup with ⟨v', hv', heq⟩
    cases heq
    exact hv'
  · intro hlookup
    refine ⟨k, ?_, by rw [hlookup, Option.map_some]⟩
    rw [(env.order_perm name _).mem_iff]
    exact List.mem_map_of_mem (mem_of_lookup hlookup)

end Opened

/-! ## One call -/

section OneCall

variable {env : Env}

theorem assign_eq_none_iff {access : Access} {val : Val} : assign access val = none ↔ access ≠ .rw := by
  unfold assign
  by_cases h : access = .rw
  · rw [if_pos h]
    exact iff_of_false (Option.some_ne_none _) (fun hne => hne h)
  · rw [if_neg h]
    exact iff_of_true rfl h

/-- What a decoder of a scalar does, apart from panicking on its data: it sets a value, or
it fails and sets nothing. -/
inductive Settles (dec : Access → Result) : Prop where
  | sets (val : Val) : (∀ access, dec access = assign access val) → Settles dec
  | fails (val : Val) (err : Str) : (∀ access, dec access = some (val, some err)) → Settles dec

theorem Settles.eq_none_iff {dec : Access → Result} (h : Settles dec) (access : Access) :
    dec access = none ↔ access ≠ .rw ∧ ∃ v, dec .rw = some (v, none) := by
  cases h with
  | sets val hdec =>
      rw [hdec, hdec, assign_eq_none_iff]
      exact ⟨fun hne => ⟨hne, val, rfl⟩, fun hne => hne.1⟩
  | fails val err hdec =>
      rw [hdec, hdec]
      constructor
      · intro hnone
        cases hnone
      · intro ⟨_, v, hv⟩
        cases hv

theorem unconvertible_settles {data : Data} (h : data.type.isSome = true) (name expected : Str)
    (val : Val) : Settles fun _ => unconvertible name expected data val := by
  rcases Option.isSome_iff_exists.mp h with ⟨got, hgot⟩
  exact .fails val _ fun _ => by rw [unconvertible, hgot, Option.map_some]

theorem decodeInt_settles {data : Data} (h : data.type.isSome = true) (name : Str) (val : Val) :
    Settles fun access => decodeInt env data name access val := by
  have hfail := unconvertible_settles h name (str "int") val
  cases data with
  | null => exact hfail
  | bool b => exact hfail
  | int n => exact .sets (.int n) fun _ => rfl
  | str s =>
      unfold decodeInt
      cases env.weaklyTypedInput with
      | false => exact hfail
      | true =>
          cases hparse : env.parseInt s with
          | ok n => exact .sets (.int n) fun _ => by simp only [if_true, hparse]
          | error err =>
              exact .fails val (str "cannot parse '" ++ name ++ str "' as int: " ++ err) fun _ => by
                simp only [if_true, hparse]
  | list xs => exact hfail
  | map m => exact hfail

theorem decodeString_settles {data : Data} (h : data.type.isSome = true) (name : Str) (val : Val) :
    Settles fun access => decodeString env data name access val := by
  have hfail := unconvertible_settles h name (str "string") val
  cases data with
  | null => exact hfail
  | bool b => exact hfail
  | int n =>
      unfold decodeString
      cases env.weaklyTypedInput with
      | false => exact hfail
      | true => exact .sets (.string (itoa n)) fun _ => rfl
  | str s => exact .sets (.string s) fun _ => rfl
  | list xs => exact hfail
  | map m => exact hfail

theorem decodeBool_settles {data : Data} (h : data.type.isSome = true) (name : Str) (val : Val) :
    Settles fun access => decodeBool env data name access val := by
  have hfail := unconvertible_settles h name (str "bool") val
  cases data with
  | null => exact hfail
  | bool b => exact .sets (.bool b) fun _ => rfl
  | int n =>
      unfold decodeBool
      cases env.weaklyTypedInput with
      | false => exact hfail
      | true => exact .sets (.bool (n ≠ 0)) fun _ => rfl
  | str s => exact hfail
  | list xs => exact hfail
  | map m => exact hfail

theorem setInterface_settles {data : Data} (h : data.type.isSome = true) (name : Str) (val : Val) :
    Settles fun access => setInterface false data name access val := by
  cases data with
  | null => cases h
  | bool b | int n | str s | list xs | map m => exact .sets (.iface false _) fun _ => rfl

theorem ok_iff {c : Call} {v : Val} {err : Option Str} (h : c.run env = some (v, err)) :
    c.Ok env ↔ err = none := by
  constructor
  · intro ⟨w, hw⟩
    cases h.symm.trans hw
    rfl
  · intro herr
    rw [herr] at h
    exact ⟨v, h⟩

/-- A loop that ends with the first error: what panics after a call that has returned. -/
theorem next_panics_iff {c : Call} {v : Val} {err : Option Str} {later : Call → Prop}
    (h : c.run env = some (v, err)) :
    (∃ d, (d = c ∨ c.Ok env ∧ later d) ∧ d.run env = none) ↔
      err = none ∧ ∃ d, later d ∧ d.run env = none := by
  rw [ok_iff h]
  constructor
  · intro ⟨d, hd, hnone⟩
    rcases hd with rfl | ⟨herr, hlater⟩
    · cases h.symm.trans hnone
    · exact ⟨herr, d, hlater, hnone⟩
  · intro ⟨herr, d, hlater, hnone⟩
    exact ⟨d, Or.inr ⟨herr, hlater⟩, hnone⟩

theorem elemCalls_cons_iff {name : Str} {elem : Ty} {access : Access} {i : Nat} {x : Src}
    {xs : List Src} {ys : List Val} {y : Val} {c : Call} (hplace : place elem access ys = some y) :
    ElemCalls env name elem access i (x :: xs) ys c ↔
      c = elemCall name access i x y ∨
        (elemCall name access i x y).Ok env ∧ ElemCalls env name elem access (i + 1) xs ys.tail c := by
  constructor
  · intro h
    cases h with
    | here hplace' =>
        cases hplace.symm.trans hplace'
        exact Or.inl rfl
    | later hplace' hok hcall =>
        cases hplace.symm.trans hplace'
        exact Or.inr ⟨hok, hcall⟩
  · intro h
    rcases h with rfl | ⟨hok, hcall⟩
    · exact .here hplace
    · exact .later hplace hok hcall

theorem overruns_cons_iff {name : Str} {elem : Ty} {access : Access} {i : Nat} {x : Src}
    {xs : List Src} {ys : List Val} {y : Val} (hplace : place elem access ys = some y) :
    Overruns env name elem access i (x :: xs) ys ↔
      (elemCall name access i x y).Ok env ∧ Overruns env name elem access (i + 1) xs ys.tail := by
  constructor
  · intro h
    cases h with
    | append hnone => cases hplace.symm.trans hnone
    | later hplace' hok hover =>
        cases hplace.symm.trans hplace'
        exact ⟨hok, hover⟩
  · intro ⟨hok, hover⟩
    exact .later hplace hok hover

/-- The loop over a slice together with the `Set` at its end. -/
theorem decodeElems_panics {name : Str} {elem : Ty} {access : Access} (i : Nat) (xs : List Src)
    (ys : List Val) :
    (decodeElems name elem access i (elems env xs) ys = none ∨
        access ≠ .rw ∧ ∃ vs, decodeElems name elem access i (elems env xs) ys = some (vs, none)) ↔
      Overruns env name elem access i xs ys ∨
        ∃ c, ElemCalls env name elem access i xs ys c ∧ c.run env = none := by
  induction xs generalizing i ys with
  | nil =>
      have hend : decodeElems name elem access i (elems env []) ys = some (ys, none) := rfl
      rw [hend]
      constructor
      · intro h
        rcases h with hnone | ⟨hne, -⟩
        · cases hnone
        · exact Or.inl (.done hne)
      · intro h
        rcases h with hover | ⟨c, hcall, -⟩
        · cases hover with
          | done hne => exact Or.inr ⟨hne, ys, rfl⟩
        · cases hcall
  | cons x xs ih =>
      rw [elems_cons, decodeElems]
      cases hplace : place elem access ys with
      | none => exact iff_of_true (Or.inl rfl) (Or.inl (.append hplace))
      | some y =>
          have hrun : (elemOf env x).decode (elemName name i) access.index y =
              (elemCall name access i x y).run env := rfl
          rw [overruns_cons_iff hplace]
          simp only [hrun, elemCalls_cons_iff hplace]
          cases hresult : (elemCall name access i x y).run env with
          | none => exact iff_of_true (Or.inl rfl) (Or.inr ⟨_, Or.inl rfl, hresult⟩)
          | some result =>
              rcases result with ⟨v, err⟩
              rw [next_panics_iff hresult, ok_iff hresult]
              cases err with
              | some err => simp
              | none =>
                  simp only [true_and]
                  rw [← ih (i + 1) ys.tail, Option.map_eq_none_iff]
                  refine or_congr_right (and_congr_right fun _ => ?_)
                  constructor
                  · intro ⟨vs, hvs⟩
                    rcases Option.map_eq_some_iff.mp hvs with ⟨⟨vs', err⟩, hrest, heq⟩
                    cases heq
                    exact ⟨vs', hrest⟩
                  · intro ⟨vs, hvs⟩
                    exact ⟨v :: vs, by rw [hvs, Option.map_some]⟩

def EntryPanics (env : Env) (name : Str) (key elem : Ty) (kv : Key × Src) : Prop :=
  (keyCall name key kv.1).run env = none ∨
    (keyCall name key kv.1).Ok env ∧ kv.2.isNull = false ∧
      (valueCall name elem kv.1 kv.2).run env = none

theorem entryPanics_iff {name : Str} {key elem : Ty} {k : Key} {v : Src} {currentKey : Val}
    {err : Option Str} (h : (keyCall name key k).run env = some (currentKey, err)) :
    EntryPanics env name key elem (k, v) ↔
      err = none ∧ v.isNull = false ∧ (valueCall name elem k v).run env = none := by
  unfold EntryPanics
  rw [ok_iff h, h, or_iff_right (Option.some_ne_none _)]

theorem decodeEntries_panics {name : Str} {key elem : Ty} {canStore : Bool} (m : List (Key × Src))
    (valMap : List (Val × Val)) (errors : List Str) :
    ((∃ kv ∈ m, EntryPanics env name key elem kv) →
      decodeEntries (decodeKey env) name key elem canStore
        (m.map fun kv => (kv.1, elemOf env kv.2)) valMap errors = none) ∧
    (canStore = true →
      decodeEntries (decodeKey env) name key elem canStore
        (m.map fun kv => (kv.1, elemOf env kv.2)) valMap errors = none →
      ∃ kv ∈ m, EntryPanics env name key elem kv) := by
  induction m generalizing valMap errors with
  | nil =>
      refine ⟨?_, ?_⟩
      · intro ⟨kv, hkv, _⟩
        cases hkv
      · intro _ hnone
        cases hnone
  | cons kv m ih =>
      rcases kv with ⟨k, v⟩
      have hkey : decodeKey env k (keyName name k) .rw key.zero = (keyCall name key k).run env :=
        decodeKey_eq k _ _ _
      have hvalue : (elemOf env v).decode (keyName name k) .rw elem.zero =
          (valueCall name elem k v).run env := rfl
      have hnull : (elemOf env v).src.isNull = v.isNull := rfl
      rw [List.exists_mem_cons_iff, List.map_cons, decodeEntries]
      simp only [hkey, hvalue, hnull]
      cases hkeyRun : (keyCall name key k).run env with
      | none => exact ⟨fun _ => rfl, fun _ _ => Or.inl (Or.inl hkeyRun)⟩
      | some keyResult =>
          rcases keyResult with ⟨currentKey, keyErr⟩
          rw [entryPanics_iff hkeyRun]
          cases keyErr with
          | some err =>
              rw [or_iff_right (fun h => nomatch h.1)]
              exact ih valMap (errors ++ [err])
          | none =>
              cases v.isNull with
              | true =>
                  rw [or_iff_right (fun h => nomatch h.2.1)]
                  exact ih valMap _
              | false =>
                  cases (valueCall name elem k v).run env with
                  | none => exact ⟨fun _ => rfl, fun _ _ => Or.inl ⟨rfl, rfl, rfl⟩⟩
                  | some valueResult =>
                      rw [or_iff_right (fun h => nomatch h.2.2)]
                      rcases valueResult with ⟨currentVal, valueErr⟩
                      cases valueErr with
                      | some err => exact ih valMap (errors ++ [err])
                      | none =>
                          cases canStore with
                          | false =>
                              exact ⟨fun _ => rfl, fun hstore => absurd hstore Bool.false_ne_true⟩
                          | true => exact ih (valMap ++ [(currentKey, currentVal)]) errors

theorem decodeFlats_panics {name : Str} {m : List (Key × Src)} (flats : List Flat)
    (fields : List (Field × Val)) (errors : List Str) :
    decodeFlats env name (entries env m) flats fields errors = none ↔
      ∃ f ∈ flats, ∃ v, rawMapVal env name m f.field.mapKey = some v ∧ f.access = .rw ∧
        (fieldCall name f v).run env = none := by
  induction flats generalizing fields errors with
  | nil =>
      refine iff_of_false (Option.some_ne_none _) ?_
      intro ⟨f, hf, _⟩
      cases hf
  | cons f flats ih =>
      rw [List.exists_mem_cons_iff, decodeFlats, rawMapVal_entries]
      cases hraw : rawMapVal env name m f.field.mapKey with
      | none =>
          rw [Option.map_none, or_iff_right (fun ⟨v, hv, _⟩ => nomatch hv)]
          exact ih fields errors
      | some v =>
          have hrun : (elemOf env v).decode (fieldPath name f.field.mapKey) .rw f.val =
              (fieldCall name f v).run env := rfl
          rw [Option.map_some]
          by_cases haccess : f.access = .rw
          · have hset : ¬ f.access ≠ .rw := fun hne => hne haccess
            simp only [if_neg hset, hrun]
            cases hresult : (fieldCall name f v).run env with
            | none => exact iff_of_true rfl (Or.inl ⟨v, rfl, haccess, hresult⟩)
            | some result =>
                rw [or_iff_right]
                · exact ih _ _
                · intro ⟨w, hw, _, hnone⟩
                  cases hw
                  cases hresult.symm.trans hnone
          · have hset : f.access ≠ .rw := haccess
            simp only [if_pos hset]
            rw [or_iff_right (fun ⟨_, _, hrw, _⟩ => hset hrw)]
            exact ih fields errors

theorem type_opened {data : Src} (h : data.isNull = false) : (opened env data).type.isSome = true := by
  cases data with
  | null => cases h
  | bool b | int n | str s | list xs | map m => rfl

theorem eq_null_of_isNull {data : Src} (h : data.isNull = true) : data = .null := by
  cases data with
  | null => rfl
  | bool b | int n | str s | list xs | map m => cases h

theorem scalar_calls {name : Str} {data : Src} {access : Access} {val : Val}
    (hval : val.isScalar = true) {d : Call} (h : Calls env ⟨name, data, access, val⟩ d) : False := by
  cases h <;> cases hval

theorem scalar_faults_iff {name : Str} {data : Src} {access : Access} {val : Val}
    (hval : val.isScalar = true) (hmethods : ∀ old, val ≠ .iface true old)
    (hdata : data.isNull = false) :
    Faults env ⟨name, data, access, val⟩ ↔
      access ≠ .rw ∧ Call.Ok env ⟨name, data, .rw, val⟩ := by
  constructor
  · intro h
    cases h with
    | null _ => cases hdata
    | @methods _ _ _ old => exact absurd rfl (hmethods old)
    | scalar _ hne hok => exact ⟨hne, hok⟩
    | slice _ => cases hval
    | map _ => cases hval
  · intro ⟨hne, hok⟩
    exact .scalar hval hne hok

theorem decode_settles {name : Str} {data : Src} {val : Val} (hval : val.isScalar = true)
    (hmethods : ∀ old, val ≠ .iface true old) (hdata : data.isNull = false) :
    Settles fun access => decode env data name access val := by
  have htype : (opened env data).type.isSome = true := type_opened hdata
  rw [decode_eq]
  cases val with
  | int n => exact decodeInt_settles htype name (.int n)
  | string s => exact decodeString_settles htype name (.string s)
  | bool b => exact decodeBool_settles htype name (.bool b)
  | iface methods old =>
      cases methods with
      | true => exact absurd rfl (hmethods old)
      | false => exact setInterface_settles htype name (.iface false old)
  | slice elem ys | map key elem old | struct fields | other kind => cases hval

theorem scalar_panics {name : Str} {data : Src} {access : Access} {val : Val}
    (hval : val.isScalar = true) (hmethods : ∀ old, val ≠ .iface true old)
    (hdata : data.isNull = false) :
    Call.run env ⟨name, data, access, val⟩ = none ↔
      Faults env ⟨name, data, access, val⟩ ∨
        ∃ d, Calls env ⟨name, data, access, val⟩ d ∧ d.run env = none := by
  rw [scalar_faults_iff hval hmethods hdata, or_iff_left (fun ⟨d, hd, _⟩ => scalar_calls hval hd)]
  exact (decode_settles hval hmethods hdata).eq_none_iff access

theorem methods_panics {name : Str} {data : Src} {access : Access} {old : Option Src} :
    Call.run env ⟨name, data, access, .iface true old⟩ = none := by
  rw [Call.run, decode_eq]
  cases data <;> rfl

theorem null_panics {name : Str} {access : Access} {val : Val} (hval : val.nullPanics = true) :
    Call.run env ⟨name, .null, access, val⟩ = none := by
  cases val with
  | int n | string s | bool b | iface methods old | struct fields => rfl
  | slice elem ys | map key elem old | other kind => cases hval

def Val.opens : Val → Src → Bool
  | .slice _ _, .list _ => true
  | .map _ _ _, .map _ => true
  | .struct _, .map _ => true
  | _, _ => false

theorem mismatch_panics {name : Str} {data : Src} {access : Access} {val : Val}
    (hval : val.isScalar = false) (hopens : val.opens data = false)
    (hnull : ¬ (data.isNull = true ∧ val.nullPanics = true)) :
    Call.run env ⟨name, data, access, val⟩ = none ↔
      Faults env ⟨name, data, access, val⟩ ∨
        ∃ d, Calls env ⟨name, data, access, val⟩ d ∧ d.run env = none := by
  refine iff_of_false ?_ ?_
  · rw [Call.run, decode_eq]
    cases val with
    | int n | string s | bool b | iface methods old => cases hval
    | slice elem ys | map key elem old | struct fields =>
        cases data with
        | null => first | exact Option.some_ne_none _ | exact absurd ⟨rfl, rfl⟩ hnull
        | bool b | int n | str s => exact Option.some_ne_none _
        | list xs | map m => first | exact Option.some_ne_none _ | cases hopens
    | other kind => exact Option.some_ne_none _
  · intro h
    rcases h with hfault | ⟨d, hcall, -⟩
    · cases hfault with
      | null hpanics => exact hnull ⟨rfl, hpanics⟩
      | methods => cases hval
      | scalar hscalar => cases hval.symm.trans hscalar
      | slice _ => cases hopens
      | map _ => cases hopens
    · cases hcall <;> cases hopens

theorem slice_panics {name : Str} {xs : List Src} {access : Access} {elem : Ty} {ys : List Val} :
    Call.run env ⟨name, .list xs, access, .slice elem ys⟩ = none ↔
      Faults env ⟨name, .list xs, access, .slice elem ys⟩ ∨
        ∃ d, Calls env ⟨name, .list xs, access, .slice elem ys⟩ d ∧ d.run env = none := by
  have hfaults : Faults env ⟨name, .list xs, access, .slice elem ys⟩ ↔
      Overruns env name elem access 0 xs ys := by
    constructor
    · intro h
      cases h with
      | scalar hscalar => cases hscalar
      | slice hover => exact hover
    · exact .slice
  have hcalls : ∀ d, Calls env ⟨name, .list xs, access, .slice elem ys⟩ d ↔
      ElemCalls env name elem access 0 xs ys d := by
    intro d
    constructor
    · intro h
      cases h with
      | elem hcall => exact hcall
    · exact .elem
  rw [hfaults]
  simp only [hcalls]
  rw [← decodeElems_panics]
  rw [Call.run, decode_list_slice]
  cases decodeElems name elem access 0 (elems env xs) ys with
  | none => exact iff_of_true rfl (Or.inl rfl)
  | some result =>
      rcases result with ⟨vs, err⟩
      cases err with
      | some err => simp
      | none => simp [assign_eq_none_iff]

theorem mapCalls_panic_iff {name : Str} {m : List (Key × Src)} {access : Access} {key elem : Ty}
    {old : Option (List (Val × Val))} :
    (∃ d, Calls env ⟨name, .map m, access, .map key elem old⟩ d ∧ d.run env = none) ↔
      ∃ kv ∈ ranged env name m, EntryPanics env name key elem kv := by
  constructor
  · intro ⟨d, hcall, hnone⟩
    cases hcall with
    | key hlookup => exact ⟨_, mem_ranged.mpr hlookup, Or.inl hnone⟩
    | value hlookup hok hnull => exact ⟨_, mem_ranged.mpr hlookup, Or.inr ⟨hok, hnull, hnone⟩⟩
  · intro ⟨⟨k, v⟩, hmem, h⟩
    have hlookup := mem_ranged.mp hmem
    rcases h with hnone | ⟨hok, hnull, hnone⟩
    · exact ⟨_, .key hlookup, hnone⟩
    · exact ⟨_, .value hlookup hok hnull, hnone⟩

theorem map_panics {name : Str} {m : List (Key × Src)} {access : Access} {key elem : Ty}
    {old : Option (List (Val × Val))} :
    Call.run env ⟨name, .map m, access, .map key elem old⟩ = none ↔
      Faults env ⟨name, .map m, access, .map key elem old⟩ ∨
        ∃ d, Calls env ⟨name, .map m, access, .map key elem old⟩ d ∧ d.run env = none := by
  have hfaults : Faults env ⟨name, .map m, access, .map key elem old⟩ ↔ access ≠ .rw := by
    constructor
    · intro h
      cases h with
      | scalar hscalar => cases hscalar
      | map hne => exact hne
    · exact .map
  rw [hfaults, mapCalls_panic_iff]
  cases m with
  | nil =>
      have hrun : Call.run env ⟨name, .map [], access, .map key elem old⟩ =
          assign access (.map key elem (some (old.getD []))) := rfl
      rw [hrun, assign_eq_none_iff, or_iff_left]
      rintro ⟨⟨k, v⟩, hmem, -⟩
      cases mem_ranged.mp hmem
  | cons kv m =>
      rw [Call.run, decode_map_map, ranged_entries]
      by_cases haccess : access = .rw
      · have hstore : (old.isNone || decide (access = .rw)) = true := by
          rw [decide_eq_true haccess, Bool.or_true]
        rw [or_iff_right (fun hne => hne haccess)]
        constructor
        · intro h
          refine (decodeEntries_panics _ (old.getD []) []).2 hstore ?_
          revert h
          cases decodeEntries (decodeKey env) name key elem (old.isNone || access = .rw)
              ((ranged env name (kv :: m)).map fun kv => (kv.1, elemOf env kv.2)) (old.getD []) [] with
          | none => exact fun _ => rfl
          | some result =>
              intro h
              exact absurd haccess (assign_eq_none_iff.mp (Option.map_eq_none_iff.mp h))
        · intro h
          rw [(decodeEntries_panics _ _ _).1 h]
      · refine iff_of_true ?_ (Or.inl haccess)
        have hassign : ∀ val, assign access val = none := fun val => assign_eq_none_iff.mpr haccess
        simp only [hassign, Option.map_none]
        split <;> rfl

theorem struct_panics {name : Str} {m : List (Key × Src)} {access : Access}
    {fields : List (Field × Val)} :
    Call.run env ⟨name, .map m, access, .struct fields⟩ = none ↔
      Faults env ⟨name, .map m, access, .struct fields⟩ ∨
        ∃ d, Calls env ⟨name, .map m, access, .struct fields⟩ d ∧ d.run env = none := by
  rw [Call.run, decode_map_struct, Option.map_eq_none_iff, decodeFlats_panics, or_iff_right]
  · constructor
    · rintro ⟨f, hf, v, hraw, haccess, hnone⟩
      exact ⟨_, .field hf hraw haccess, hnone⟩
    · rintro ⟨d, hcall, hnone⟩
      cases hcall with
      | field hf hraw haccess => exact ⟨_, hf, _, hraw, haccess, hnone⟩
  · intro h
    cases h with
    | scalar hscalar => cases hscalar

/-- A call panics by itself, or one of the calls that it makes does. -/
theorem run_eq_none_iff (c : Call) :
    c.run env = none ↔ Faults env c ∨ ∃ d, Calls env c d ∧ d.run env = none := by
  rcases c with ⟨name, data, access, val⟩
  by_cases hnull : data.isNull = true ∧ val.nullPanics = true
  · rw [eq_null_of_isNull hnull.1]
    exact iff_of_true (null_panics hnull.2) (Or.inl (.null hnull.2))
  · have hdata : val.nullPanics = true → data.isNull = false := by
      intro hval
      exact Bool.eq_false_iff.mpr fun h => hnull ⟨h, hval⟩
    cases val with
    | int n | string s | bool b => exact scalar_panics rfl nofun (hdata rfl)
    | iface methods old =>
        cases methods with
        | true => exact iff_of_true methods_panics (Or.inl .methods)
        | false => exact scalar_panics rfl nofun (hdata rfl)
    | slice elem ys =>
        cases data with
        | list xs => exact slice_panics
        | null | bool b | int n | str s | map m => exact mismatch_panics rfl rfl hnull
    | map key elem old =>
        cases data with
        | map m => exact map_panics
        | null | bool b | int n | str s | list xs => exact mismatch_panics rfl rfl hnull
    | struct fields =>
        cases data with
        | map m => exact struct_panics
        | null | bool b | int n | str s | list xs => exact mismatch_panics rfl rfl hnull
    | other kind => exact mismatch_panics rfl rfl hnull

end OneCall

/-! ## The whole run -/

section Run

variable {env : Env}

theorem ElemCalls.data_mem {name : Str} {elem : Ty} {access : Access} {i : Nat} {xs : List Src}
    {ys : List Val} {c : Call} (h : ElemCalls env name elem access i xs ys c) : c.data ∈ xs := by
  induction h with
  | here _ => exact List.mem_cons_self
  | later _ _ _ ih => exact List.mem_cons_of_mem _ ih

theorem sizeOf_toSrc (k : Key) : sizeOf k.toSrc = sizeOf k := by
  cases k <;> rfl

theorem sizeOf_entry_lt {m : List (Key × Src)} {k : Key} {v : Src} (h : (k, v) ∈ m) :
    sizeOf k + sizeOf v < sizeOf m := by
  have hlt := List.sizeOf_lt_of_mem h
  rw [Prod.mk.sizeOf_spec] at hlt
  omega

/-- A value directly inside another one. The keys of a map count. -/
inductive Part : Src → Src → Prop where
  | elem {xs : List Src} {x : Src} : x ∈ xs → Part (.list xs) x
  | key {m : List (Key × Src)} {k : Key} {v : Src} : (k, v) ∈ m → Part (.map m) k.toSrc
  | value {m : List (Key × Src)} {k : Key} {v : Src} : (k, v) ∈ m → Part (.map m) v

theorem Part.sizeOf_lt {x y : Src} (h : Part x y) : sizeOf y < sizeOf x := by
  cases h with
  | elem hmem =>
      have hlt := List.sizeOf_lt_of_mem hmem
      rw [Src.list.sizeOf_spec]
      omega
  | key hmem =>
      have hlt := sizeOf_entry_lt hmem
      rw [sizeOf_toSrc, Src.map.sizeOf_spec]
      omega
  | value hmem =>
      have hlt := sizeOf_entry_lt hmem
      rw [Src.map.sizeOf_spec]
      omega

theorem Calls.part {c d : Call} (h : Calls env c d) : Part c.data d.data := by
  cases h with
  | elem hcall => exact .elem hcall.data_mem
  | key hlookup => exact .key (mem_of_lookup hlookup)
  | value hlookup _ _ => exact .value (mem_of_lookup hlookup)
  | field _ hraw _ =>
      rcases mem_of_rawMapVal hraw with ⟨k, hmem⟩
      exact .value hmem

theorem fault_of_run {c : Call} (h : c.run env = none) :
    ∃ d, ReflTransGen (Calls env) c d ∧ Faults env d := by
  rcases (run_eq_none_iff c).mp h with hfault | ⟨d, hcall, hnone⟩
  · exact ⟨c, .refl, hfault⟩
  · have hlt := hcall.part.sizeOf_lt
    rcases fault_of_run hnone with ⟨e, hreach, hfault⟩
    exact ⟨e, .head hcall hreach, hfault⟩
  termination_by sizeOf c.data

theorem run_of_fault {c d : Call} (hreach : ReflTransGen (Calls env) c d) (hfault : Faults env d) :
    c.run env = none := by
  induction hreach using ReflTransGen.head_induction_on with
  | refl => exact (run_eq_none_iff d).mpr (Or.inl hfault)
  | head hcall _ ih => exact (run_eq_none_iff _).mpr (Or.inr ⟨_, hcall, ih⟩)

theorem started_missing_iff {src : List (Str × Src)} {f : Field} {val : Val}
    {fields : List (Field × Val)} {c : Call}
    (hmissing : ((src.lookup f.key).getD .null).isNull = true) :
    Started env src ((f, val) :: fields) c ↔ f.omitempty = true ∧ Started env src fields c := by
  constructor
  · intro h
    cases h with
    | here hlookup hvalue | later hlookup hvalue _ _ =>
        rw [hlookup] at hmissing
        cases hmissing.symm.trans hvalue
    | skip _ homit hrest => exact ⟨homit, hrest⟩
  · intro ⟨homit, hrest⟩
    exact .skip hmissing homit hrest

theorem started_given_iff {src : List (Str × Src)} {f : Field} {val : Val}
    {fields : List (Field × Val)} {value : Src} {c : Call} (hlookup : src.lookup f.key = some value)
    (hvalue : value.isNull = false) :
    Started env src ((f, val) :: fields) c ↔
      c = topCall f val value ∨ (topCall f val value).Ok env ∧ Started env src fields c := by
  constructor
  · intro h
    cases h with
    | here hlookup' _ =>
        cases hlookup.symm.trans hlookup'
        exact Or.inl rfl
    | skip hmissing _ _ =>
        rw [hlookup] at hmissing
        cases hvalue.symm.trans hmissing
    | later hlookup' _ hok hrest =>
        cases hlookup.symm.trans hlookup'
        exact Or.inr ⟨hok, hrest⟩
  · intro h
    rcases h with rfl | ⟨hok, hrest⟩
    · exact .here hlookup hvalue
    · exact .later hlookup hvalue hok hrest

theorem Decode_eq_none_iff (src : List (Str × Src)) (dst : List (Field × Val)) :
    Decode env src dst = none ↔ ∃ c, Started env src dst c ∧ c.run env = none := by
  induction dst with
  | nil =>
      refine iff_of_false (Option.some_ne_none _) ?_
      intro ⟨c, hstarted, _⟩
      cases hstarted
  | cons fv fields ih =>
      rcases fv with ⟨f, val⟩
      rw [Decode]
      cases hmissing : ((src.lookup f.key).getD .null).isNull with
      | true =>
          simp only [started_missing_iff hmissing, if_true]
          cases f.omitempty with
          | true => simpa using ih
          | false => simp
      | false =>
          cases hlookup : src.lookup f.key with
          | none =>
              rw [hlookup] at hmissing
              cases hmissing
          | some value =>
              rw [hlookup] at hmissing
              have hrun : decode env value f.key (Access.rw.field f) val =
                  (topCall f val value).run env := rfl
              simp only [started_given_iff hlookup hmissing, Option.getD_some, Bool.false_eq_true,
                if_false, hrun]
              cases hresult : (topCall f val value).run env with
              | none => exact iff_of_true rfl ⟨_, Or.inl rfl, hresult⟩
              | some result =>
                  rcases result with ⟨v, err⟩
                  rw [next_panics_iff hresult]
                  cases err with
                  | some err => simp
                  | none => simpa using ih

/-! ## Destinations that may be set -/

theorem ElemCalls.access_eq {name : Str} {elem : Ty} {access : Access} {i : Nat} {xs : List Src}
    {ys : List Val} {c : Call} (h : ElemCalls env name elem access i xs ys c) :
    c.access = access.index := by
  induction h with
  | here _ => rfl
  | later _ _ _ ih => exact ih

theorem Calls.access_rw {c d : Call} (h : Calls env c d) (hc : c.access = .rw) : d.access = .rw := by
  cases h with
  | elem hcall =>
      cases hc
      exact hcall.access_eq
  | key _ | value _ _ _ | field _ _ _ => rfl

theorem Started.access_rw {src : List (Str × Src)} {dst : List (Field × Val)} {c : Call}
    (h : Started env src dst c) (hdst : ∀ fv ∈ dst, fv.1.exported = true) : c.access = .rw := by
  induction h with
  | @here f val fields value _ _ =>
      have hexported : f.exported = true := hdst _ List.mem_cons_self
      simp [topCall, Access.field, hexported]
  | skip _ _ _ ih | later _ _ _ _ ih => exact ih fun fv hfv => hdst fv (List.mem_cons_of_mem _ hfv)

theorem not_overruns {name : Str} {elem : Ty} {i : Nat} {xs : List Src} {ys : List Val} :
    ¬ Overruns env name elem .rw i xs ys := by
  intro h
  generalize haccess : Access.rw = access at h
  induction h with
  | done hne => exact hne haccess.symm
  | @append i x xs ys hplace =>
      cases haccess
      cases ys <;> cases hplace
  | later _ _ _ ih => exact ih

theorem faults_iff_of_rw {c : Call} (hc : c.access = .rw) :
    Faults env c ↔
      c.data = .null ∧ c.val.nullPanics = true ∨ ∃ old, c.val = .iface true old := by
  constructor
  · intro h
    cases h with
    | null hval => exact Or.inl ⟨rfl, hval⟩
    | @methods _ _ _ old => exact Or.inr ⟨old, rfl⟩
    | scalar _ hne _ => exact absurd hc hne
    | slice hover =>
        cases hc
        exact absurd hover not_overruns
    | map hne => exact absurd hc hne
  · intro h
    rcases c with ⟨name, data, access, val⟩
    rcases h with ⟨hdata, hval⟩ | ⟨old, hval⟩
    · cases hdata
      exact .null hval
    · cases hval
      exact .methods

end Run

/-- The calls of `decode` in a run of `Decode`, up to the first that panics. -/
def Reached (env : Env) (src : List (Str × Src)) (dst : List (Field × Val)) (d : Call) : Prop :=
  ∃ c, Started env src dst c ∧ ReflTransGen (Calls env) c d

theorem Reached.access_rw {env : Env} {src : List (Str × Src)} {dst : List (Field × Val)} {d : Call}
    (h : Reached env src dst d) (hdst : ∀ fv ∈ dst, fv.1.exported = true) : d.access = .rw := by
  rcases h with ⟨c, hstarted, hreach⟩
  induction hreach with
  | refl => exact hstarted.access_rw hdst
  | tail _ hcall ih => exact hcall.access_rw ih

theorem Started.mem {env : Env} {src : List (Str × Src)} {dst : List (Field × Val)} {c : Call}
    (h : Started env src dst c) : c.data.isNull = false ∧ ∃ key, (key, c.data) ∈ src := by
  induction h with
  | here hlookup hvalue => exact ⟨hvalue, _, mem_of_lookup hlookup⟩
  | skip _ _ _ ih | later _ _ _ _ ih => exact ih

/-- A null that comes to a call is inside one of the values of the source. -/
theorem Reached.null_inside {env : Env} {src : List (Str × Src)} {dst : List (Field × Val)} {d : Call}
    (h : Reached env src dst d) (hnull : d.data = .null) :
    ∃ kv ∈ src, TransGen Part kv.2 .null := by
  rcases h with ⟨c, hstarted, hreach⟩
  rcases hstarted.mem with ⟨hc, key, hmem⟩
  refine ⟨(key, c.data), hmem, ?_⟩
  have hpath : ReflTransGen Part c.data d.data := hreach.lift Call.data fun _ _ => Calls.part
  rw [hnull] at hpath
  rcases reflTransGen_iff_eq_or_transGen.mp hpath with heq | hpath
  · rw [← heq] at hc
    cases hc
  · exact hpath

/-- So a source with nulls at its top alone is decoded or refused, whatever the fields are,
unless one is an interface with methods. -/
theorem decode_returns_of_no_null {env : Env} {src : List (Str × Src)} {dst : List (Field × Val)}
    (hdst : ∀ fv ∈ dst, fv.1.exported = true) (hsrc : ∀ kv ∈ src, ¬ TransGen Part kv.2 .null)
    (hmethods : ∀ d, Reached env src dst d → ∀ old, d.val ≠ .iface true old) :
    (Decode env src dst).isSome = true := by
  rw [Option.isSome_iff_ne_none, ne_eq, Decode_eq_none_iff]
  intro ⟨c, hstarted, hnone⟩
  rcases fault_of_run hnone with ⟨d, hreach, hfault⟩
  have hd : Reached env src dst d := ⟨c, hstarted, hreach⟩
  rcases (faults_iff_of_rw (hd.access_rw hdst)).mp hfault with ⟨hnull, -⟩ | ⟨old, hval⟩
  · rcases hd.null_inside hnull with ⟨kv, hkv, hpath⟩
    exact hsrc kv hkv hpath
  · exact hmethods d hd old hval

/-- `Decode` returns exactly if none of its calls faults. If every field of the destination is
exported, the faults are the nulls that come to a kind with no branch for them, and the
interfaces with methods. -/
theorem decode_returns_iff (env : Env) (src : List (Str × Src)) (dst : List (Field × Val)) :
    ((Decode env src dst).isSome = true ↔ ∀ d, Reached env src dst d → ¬ Faults env d) ∧
    ((∀ fv ∈ dst, fv.1.exported = true) → ∀ d, Reached env src dst d →
      (Faults env d ↔
        d.data = .null ∧ d.val.nullPanics = true ∨ ∃ old, d.val = .iface true old)) := by
  refine ⟨?_, fun hdst d hd => faults_iff_of_rw (hd.access_rw hdst)⟩
  rw [Option.isSome_iff_ne_none, ne_eq, Decode_eq_none_iff]
  constructor
  · intro h d ⟨c, hstarted, hreach⟩ hfault
    exact h ⟨c, hstarted, run_of_fault hreach hfault⟩
  · intro h ⟨c, hstarted, hnone⟩
    rcases fault_of_run hnone with ⟨d, hreach, hfault⟩
    exact h d ⟨c, hstarted, hreach⟩ hfault

/-- No string is an integer, and maps are iterated in the order of the source. -/
def plainEnv (weaklyTypedInput : Bool) : Env where
  weaklyTypedInput := weaklyTypedInput
  parseInt s := .error (str "strconv.ParseInt: parsing \"" ++ s ++ str "\": invalid syntax")
  errorf text := text
  unicode := .ascii
  order _ keys := keys
  order_perm _ keys := .refl keys

def field (name tag : String) : Field := ⟨str name, str tag, true, false⟩

def plainFields : List (Field × Val) :=
  [(field "Name" "name", .string []), (field "Type" "type", .string []),
    (field "Proxies" "proxies,omitempty", .slice .string []),
    (field "Use" "use,omitempty", .slice .string []),
    (field "URL" "url,omitempty", .string []), (field "Interval" "interval,omitempty", .int 0)]

def flagFields (lazy : Bool) : List (Field × Val) :=
  [(field "Lazy" "lazy,omitempty", .bool lazy),
    (field "DisableUDP" "disable-udp,omitempty", .bool false)]

/-- A `GroupCommonOption` as reflection sees it, with `Lazy` set beforehand. -/
def optionFields (lazy : Bool) : List (Field × Val) := plainFields ++ flagFields lazy

/-- The group `- {name: auto, type: select, proxies: [~]}`. -/
def nullProxy : List (Str × Src) :=
  [(str "name", .str (str "auto")), (str "type", .str (str "select")),
    (str "proxies", .list [.null])]

theorem decode_null_in_list :
    Decode (plainEnv false) nullProxy (optionFields true) = none ∧
      Decode (plainEnv true) nullProxy (optionFields true) = none := by
  exact ⟨rfl, rfl⟩

end RuleBaseProxy.Structure
