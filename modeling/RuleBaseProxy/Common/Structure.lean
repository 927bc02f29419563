import RuleBaseProxy.Lib.GoString

/-! # Decoding configuration into structures

`structure.Decoder` fills a Go value from a tree of maps, lists and scalars by
reflection. A destination is modelled with its type: the constructor of a `Val` is
the kind that reflection reports, and a slice or a map carries the types of what it
is made of. Reflection panics on a zero `reflect.Value`, which is what a null turns
into, and on setting what was reached through an unexported field. A panic is `none`;
everything else returns the destination, as far as it was filled, and perhaps an error.
-/

namespace RuleBaseProxy.Structure

open Go

inductive Key where
  | null
  | bool (b : Bool)
  | int (n : Int)
  | str (s : Str)
  deriving DecidableEq

/-- A value as the YAML library yields it. -/
inductive Src where
  | null
  | bool (b : Bool)
  | int (n : Int)
  | str (s : Str)
  | list (xs : List Src)
  | map (m : List (Key × Src))

def Key.toSrc : Key → Src
  | .null => .null
  | .bool b => .bool b
  | .int n => .int n
  | .str s => .str s

def Src.isNull : Src → Bool
  | .null => true
  | _ => false

/-- A field of a structure, with its tag under the decoder's `TagName`. -/
structure Field where
  name : Str
  tag : Str
  exported : Bool
  embedded : Bool
  deriving DecidableEq

namespace Field

def key (f : Field) : Str := f.tag.takeWhile (· ≠ 44)

def omitempty (f : Field) : Bool := f.tag.dropWhile (· ≠ 44) == str ",omitempty"

def squash (f : Field) : Bool := ((split f.tag 44).drop 1).contains (str "squash")

/-- The name under which a field of an inner structure is looked up. -/
def mapKey (f : Field) : Str := if f.key ≠ [] then f.key else f.name

end Field

inductive Ty where
  | int
  | string
  | bool
  | slice (elem : Ty)
  | map (key elem : Ty)
  /-- An interface type, perhaps with methods, which no source value has. -/
  | iface (methods : Bool)
  | struct (fields : List (Field × Ty))
  | other (kind : Str)

/-- In a map the later entry of a key counts; `none` is the nil map. -/
inductive Val where
  | int (n : Int)
  | string (s : Str)
  | bool (b : Bool)
  | slice (elem : Ty) (xs : List Val)
  | map (key elem : Ty) (m : Option (List (Val × Val)))
  | iface (methods : Bool) (data : Option Src)
  | struct (fields : List (Field × Val))
  | other (kind : Str)

def Val.kind : Val → Str
  | .int _ => str "int"
  | .string _ => str "string"
  | .bool _ => str "bool"
  | .slice _ _ => str "slice"
  | .map _ _ _ => str "map"
  | .iface _ _ => str "interface"
  | .struct _ => str "struct"
  | .other kind => kind

mutual

def Ty.zero : Ty → Val
  | .int => .int 0
  | .string => .string []
  | .bool => .bool false
  | .slice elem => .slice elem []
  | .map key elem => .map key elem none
  | .iface methods => .iface methods none
  | .struct fields => .struct (zeroFields fields)
  | .other kind => .other kind

def zeroFields : List (Field × Ty) → List (Field × Val)
  | [] => []
  | (f, t) :: fields => (f, t.zero) :: zeroFields fields

end

/-- What the flags of a `reflect.Value` allow. -/
inductive Access where
  | rw
  /-- Reached through an unexported embedded field. -/
  | embedRO
  /-- Reached through another unexported field. -/
  | stickyRO
  deriving DecidableEq

def Access.field (access : Access) (f : Field) : Access :=
  if access = .stickyRO then .stickyRO
  else if f.exported then .rw
  else if f.embedded then .embedRO
  else .stickyRO

def Access.index : Access → Access
  | .rw => .rw
  | _ => .stickyRO

/-- The option of the decoder, and what it takes from the libraries: `strconv.ParseInt`,
`fmt.Errorf` on a text that may contain verbs, the tables behind `strings.EqualFold`, and
the orders in which maps are iterated. -/
structure Env where
  weaklyTypedInput : Bool
  parseInt : Str → Except Str Int
  errorf : Str → Str
  unicode : Unicode
  order : Str → List Key → List Key
  order_perm : ∀ name keys, (order name keys).Perm keys

abbrev Result := Option (Val × Option Str)

abbrev Decoder := Str → Access → Val → Result

structure Elem where
  src : Src
  decode : Decoder

/-- What reflection sees of the data. -/
inductive Data where
  | null
  | bool (b : Bool)
  | int (n : Int)
  | str (s : Str)
  | list (xs : List Elem)
  | map (m : List (Key × Elem))

namespace Data

def kind : Data → Str
  | .null => Go.str "invalid"
  | .bool _ => Go.str "bool"
  | .int _ => Go.str "int"
  | .str _ => Go.str "string"
  | .list _ => Go.str "slice"
  | .map _ => Go.str "map"

/-- `Type`, which panics on the zero value. -/
def type : Data → Option Str
  | .null => none
  | .bool _ => some (Go.str "bool")
  | .int _ => some (Go.str "int")
  | .str _ => some (Go.str "string")
  | .list _ => some (Go.str "[]interface \x7b\x7d")
  | .map _ => some (Go.str "map[interface \x7b\x7d]interface \x7b\x7d")

def toSrc : Data → Src
  | .null => .null
  | .bool b => .bool b
  | .int n => .int n
  | .str s => .str s
  | .list xs => .list (xs.map (·.src))
  | .map m => .map (m.map fun e => (e.1, e.2.src))

end Data

/-! ## Scalars and interfaces -/

/-- `Set` and its kin. -/
def assign (access : Access) (val : Val) : Result :=
  if access = .rw then some (val, none) else none

/-- The last branch of `decodeInt`, `decodeString` and `decodeBool`. -/
def unconvertible (name expected : Str) (data : Data) (val : Val) : Result :=
  data.type.map fun got =>
    (val, some (str "'" ++ name ++ str "' expected type '" ++ expected ++
      str "', got unconvertible type '" ++ got ++ str "'"))

def decodeInt (env : Env) (data : Data) : Decoder := fun name access val =>
  match data with
  | .int n => assign access (.int n)
  | .str s =>
      if env.weaklyTypedInput then
        match env.parseInt s with
        | .ok n => assign access (.int n)
        | .error err => some (val, some (str "cannot parse '" ++ name ++ str "' as int: " ++ err))
      else unconvertible name (str "int") data val
  | _ => unconvertible name (str "int") data val

def decodeString (env : Env) (data : Data) : Decoder := fun name access val =>
  match data with
  | .str s => assign access (.string s)
  | .int n =>
      if env.weaklyTypedInput then assign access (.string (itoa n))
      else unconvertible name (str "string") data val
  | _ => unconvertible name (str "string") data val

def decodeBool (env : Env) (data : Data) : Decoder := fun name access val =>
  match data with
  | .bool b => assign access (.bool b)
  | .int n =>
      if env.weaklyTypedInput then assign access (.bool (n ≠ 0))
      else unconvertible name (str "bool") data val
  | _ => unconvertible name (str "bool") data val

def setInterface (methods : Bool) (data : Data) : Decoder := fun _ access _ =>
  match data with
  | .null => none
  | _ => if methods then none else assign access (.iface methods (some data.toSrc))

/-! ## Slices -/

def elemName (name : Str) (i : Nat) : Str := name ++ str "[" ++ formatUint 10 i ++ str "]"

/-- The element that is there, or the zero that `reflect.Append` puts there. -/
def place (elem : Ty) (access : Access) : List Val → Option Val
  | y :: _ => some y
  | [] => if access = .rw then some elem.zero else none

/-- The loop of `decodeSlice` from element `i` on: the rest of the slice afterwards. -/
def decodeElems (name : Str) (elem : Ty) (access : Access) :
    Nat → List Elem → List Val → Option (List Val × Option Str)
  | _, [], ys => some (ys, none)
  | i, x :: xs, ys =>
      match place elem access ys with
      | none => none
      | some y =>
          match x.decode (elemName name i) access.index y with
          | none => none
          | some (v, some err) => some (v :: ys.tail, some err)
          | some (v, none) =>
              (decodeElems name elem access (i + 1) xs ys.tail).map fun (vs, err) => (v :: vs, err)

/-- After an error only the elements that were there before have changed. -/
def decodeSlice (elem : Ty) (ys : List Val) (data : Data) : Decoder := fun name access val =>
  match data with
  | .list xs =>
      match decodeElems name elem access 0 xs ys with
      | none => none
      | some (vs, some err) => some (.slice elem (vs.take ys.length), some err)
      | some (vs, none) => assign access (.slice elem vs)
  | _ => some (val, some (str "'" ++ name ++ str "' is not a slice"))

/-! ## Maps -/

def Key.text : Key → Str
  | .null => Go.str "<nil>"
  | .bool b => Go.str "%!s(bool=" ++ (if b then Go.str "true" else Go.str "false") ++ Go.str ")"
  | .int n => Go.str "%!s(int=" ++ itoa n ++ Go.str ")"
  | .str s => s

def keyName (name : Str) (k : Key) : Str := name ++ str "[" ++ k.text ++ str "]"

def ranged {α : Type} (env : Env) (name : Str) (m : List (Key × α)) : List (Key × α) :=
  (env.order name (m.map Prod.fst)).filterMap fun k => (m.lookup k).map fun e => (k, e)

/-- The loop of `decodeMapFromMap`: entries and errors so far. `SetMapIndex` panics on a map
that may not be set. -/
def decodeEntries (decodeKey : Key → Decoder) (name : Str) (key elem : Ty) (canStore : Bool) :
    List (Key × Elem) → List (Val × Val) → List Str → Option (List (Val × Val) × List Str)
  | [], valMap, errors => some (valMap, errors)
  | (k, e) :: rest, valMap, errors =>
      match decodeKey k (keyName name k) .rw key.zero with
      | none => none
      | some (_, some err) =>
          decodeEntries decodeKey name key elem canStore rest valMap (errors ++ [err])
      | some (currentKey, none) =>
          if e.src.isNull then
            decodeEntries decodeKey name key elem canStore rest valMap
              (errors ++ [str "filed " ++ keyName name k ++ str " invalid"])
          else
            match e.decode (keyName name k) .rw elem.zero with
            | none => none
            | some (_, some err) =>
                decodeEntries decodeKey name key elem canStore rest valMap (errors ++ [err])
            | some (currentVal, none) =>
                if canStore then
                  decodeEntries decodeKey name key elem canStore rest
                    (valMap ++ [(currentKey, currentVal)]) errors
                else none

def joinErrors (env : Env) (errors : List Str) : Option Str :=
  if errors = [] then none else some (env.errorf (join errors 44))

def expectedMap (name : Str) (data : Data) (val : Val) : Result :=
  some (val, some (str "'" ++ name ++ str "' expected a map, got '" ++ data.kind ++ str "'"))

/-- `decodeMap` with `decodeMapFromMap`. A nil map is replaced by a new one, which may always
be filled. -/
def decodeMap (env : Env) (decodeKey : Key → Decoder) (key elem : Ty)
    (old : Option (List (Val × Val))) (data : Data) : Decoder := fun name access val =>
  match data with
  | .map [] => assign access (.map key elem (some (old.getD [])))
  | .map m =>
      match decodeEntries decodeKey name key elem (old.isNone || access = .rw) (ranged env name m)
        (old.getD []) [] with
      | none => none
      | some (valMap, errors) =>
          (assign access (.map key elem (some valMap))).map fun (v, _) => (v, joinErrors env errors)
  | _ => expectedMap name data val

/-! ## Structures -/

/-- A field that is decoded: where it is in the destination, and its value. -/
structure Flat where
  path : List Nat
  field : Field
  access : Access
  val : Val

structure Struct where
  path : List Nat
  access : Access
  fields : List (Field × Val)

namespace Struct

def squashed (s : Struct) : Nat → List (Field × Val) → List Struct
  | _, [] => []
  | i, (f, .struct sub) :: fields =>
      if f.squash then ⟨s.path ++ [i], s.access.field f, sub⟩ :: s.squashed (i + 1) fields
      else s.squashed (i + 1) fields
  | i, _ :: fields => s.squashed (i + 1) fields

def squashError (f : Field) (val : Val) : Option Str :=
  match val with
  | .struct _ => none
  | _ =>
      if f.squash then some (f.name ++ str ": unsupported type for squash: " ++ val.kind) else none

def plain (s : Struct) : Nat → List (Field × Val) → List Flat
  | _, [] => []
  | i, (f, v) :: fields =>
      if f.squash then s.plain (i + 1) fields
      else ⟨s.path ++ [i], f, s.access.field f, v⟩ :: s.plain (i + 1) fields

theorem sizeOf_squashed (s : Struct) (i : Nat) (fields : List (Field × Val)) :
    ((s.squashed i fields).map fun t => sizeOf t.fields).sum < sizeOf fields := by
  induction fields generalizing i with
  | nil => simp [squashed]
  | cons fv fields ih =>
      have hrest := ih (i + 1)
      rcases fv with ⟨f, v⟩
      cases v
      case struct sub =>
        rw [squashed]
        split
        · simp only [List.map_cons, List.sum_cons, List.cons.sizeOf_spec, Prod.mk.sizeOf_spec,
            Val.struct.sizeOf_spec]
          omega
        · simp only [List.cons.sizeOf_spec]
          omega
      all_goals
        simp only [squashed, List.cons.sizeOf_spec]
        omega

end Struct

/-- The queue of `decodeStructFromMap`: the fields of all structures in it, and the errors. -/
def collect : List Struct → List Flat × List Str
  | [] => ([], [])
  | s :: structs =>
      let rest := collect (structs ++ s.squashed 0 s.fields)
      (s.plain 0 s.fields ++ rest.1,
        s.fields.filterMap (fun fv => Struct.squashError fv.1 fv.2) ++ rest.2)
  termination_by structs => (structs.map fun t => sizeOf t.fields).sum
  decreasing_by
    have hlt := s.sizeOf_squashed 0 s.fields
    simp only [List.map_append, List.sum_append, List.map_cons, List.sum_cons]
    omega

/-- The value under the name of a field: under the name itself, or else under a key that is
equal to it but for the case of letters. -/
def rawMapVal {α : Type} (env : Env) (name : Str) (m : List (Key × α)) (mapKey : Str) : Option α :=
  match m.lookup (.str mapKey) with
  | some e => some e
  | none =>
      ((env.order (name ++ str "." ++ mapKey) (m.map Prod.fst)).find? fun k =>
        match k with
        | .str s => equalFold env.unicode s mapKey
        | _ => false).bind fun k => m.lookup k

def setAt : List (Field × Val) → List Nat → Val → List (Field × Val)
  | fields, [], _ => fields
  | fields, [i], val => fields.modify i fun fv => (fv.1, val)
  | fields, i :: path, val =>
      fields.modify i fun fv =>
        match fv.2 with
        | .struct sub => (fv.1, .struct (setAt sub path val))
        | _ => fv

def fieldPath (name mapKey : Str) : Str := if name ≠ [] then name ++ str "." ++ mapKey else mapKey

/-- The loop over the fields: the structure and the errors so far. -/
def decodeFlats (env : Env) (name : Str) (m : List (Key × Elem)) :
    List Flat → List (Field × Val) → List Str → Option (List (Field × Val) × List Str)
  | [], fields, errors => some (fields, errors)
  | f :: flats, fields, errors =>
      match rawMapVal env name m f.field.mapKey with
      | none => decodeFlats env name m flats fields errors
      | some e =>
          -- `CanSet`
          if f.access ≠ .rw then decodeFlats env name m flats fields errors
          else
            match e.decode (fieldPath name f.field.mapKey) .rw f.val with
            | none => none
            | some (v, err) =>
                decodeFlats env name m flats (setAt fields f.path v) (errors ++ err.toList)

/-- `decodeStruct` with `decodeStructFromMap`. No source value has the type of a structure. -/
def decodeStruct (env : Env) (fields : List (Field × Val)) (data : Data) : Decoder :=
  fun name access val =>
    match data with
    | .null => none
    | .map m =>
        let (flats, errors) := collect [⟨[], access, fields⟩]
        (decodeFlats env name m flats fields errors).map fun (fields, errors) =>
          (.struct fields, joinErrors env errors)
    | _ => expectedMap name data val

/-! ## The decoder -/

/-- The switch of `decode` over the kinds. -/
def decodeData (env : Env) (decodeKey : Key → Decoder) (data : Data) : Decoder :=
  fun name access val =>
    match val with
    | .int _ => decodeInt env data name access val
    | .string _ => decodeString env data name access val
    | .bool _ => decodeBool env data name access val
    | .slice elem ys => decodeSlice elem ys data name access val
    | .map key elem old => decodeMap env decodeKey key elem old data name access val
    | .iface methods _ => setInterface methods data name access val
    | .struct fields => decodeStruct env fields data name access val
    | .other kind => some (val, some (str "type " ++ kind ++ str " not support"))

/-- `decode` of a key. A key is not a map, so no keys are met below it. -/
def decodeKey (env : Env) (k : Key) : Decoder :=
  let noKeys : Key → Decoder := fun _ _ _ _ => none
  match k with
  | .null => decodeData env noKeys .null
  | .bool b => decodeData env noKeys (.bool b)
  | .int n => decodeData env noKeys (.int n)
  | .str s => decodeData env noKeys (.str s)

mutual

def decode (env : Env) : Src → Decoder
  | .null => decodeData env (decodeKey env) .null
  | .bool b => decodeData env (decodeKey env) (.bool b)
  | .int n => decodeData env (decodeKey env) (.int n)
  | .str s => decodeData env (decodeKey env) (.str s)
  | .list xs => decodeData env (decodeKey env) (.list (elems env xs))
  | .map m => decodeData env (decodeKey env) (.map (entries env m))

def elems (env : Env) : List Src → List Elem
  | [] => []
  | x :: xs => ⟨x, decode env x⟩ :: elems env xs

def entries (env : Env) : List (Key × Src) → List (Key × Elem)
  | [] => []
  | (k, v) :: m => (k, ⟨v, decode env v⟩) :: entries env m

end

theorem decode_list_slice (env : Env) (xs : List Src) (name : Str) (access : Access) (elem : Ty)
    (ys : List Val) :
    decode env (.list xs) name access (.slice elem ys) =
      match decodeElems name elem access 0 (elems env xs) ys with
      | none => none
      | some (vs, some err) => some (.slice elem (vs.take ys.length), some err)
      | some (vs, none) => assign access (.slice elem vs) := rfl

theorem decode_map_map (env : Env) (kv : Key × Src) (m : List (Key × Src)) (name : Str)
    (access : Access) (key elem : Ty) (old : Option (List (Val × Val))) :
    decode env (.map (kv :: m)) name access (.map key elem old) =
      match decodeEntries (decodeKey env) name key elem (old.isNone || access = .rw)
        (ranged env name (entries env (kv :: m))) (old.getD []) [] with
      | none => none
      | some (valMap, errors) =>
          (assign access (.map key elem (some valMap))).map fun (v, _) =>
            (v, joinErrors env errors) := rfl

theorem decode_map_struct (env : Env) (m : List (Key × Src)) (name : Str) (access : Access)
    (fields : List (Field × Val)) :
    decode env (.map m) name access (.struct fields) =
      (decodeFlats env name (entries env m) (collect [⟨[], access, fields⟩]).1 fields
        (collect [⟨[], access, fields⟩]).2).map fun (fields, errors) =>
          (.struct fields, joinErrors env errors) := rfl

def Decode (env : Env) (src : List (Str × Src)) :
    List (Field × Val) → Option (List (Field × Val) × Option Str)
  | [] => some ([], none)
  | (f, v) :: fields =>
      let value := (src.lookup f.key).getD .null
      if value.isNull then
        if f.omitempty then (Decode env src fields).map fun (fields, err) => ((f, v) :: fields, err)
        else some ((f, v) :: fields, some (str "key '" ++ f.key ++ str "' missing"))
      else
        match decode env value f.key (Access.rw.field f) v with
        | none => none
        | some (v, some err) => some ((f, v) :: fields, some err)
        | some (v, none) =>
            (Decode env src fields).map fun (fields, err) => ((f, v) :: fields, err)

end RuleBaseProxy.Structure
