import RuleBaseProxy.Common.StructurePanic
import RuleBaseProxy.Lib.Checked
import RuleBaseProxy.Provider.Fetcher

/-! # The providers of proxies

A provider of the configuration reads its proxies from a file or from a server
whose answer it keeps in a file. `Initial` prefers the file that is there and
turns to the source itself if the file does not parse. The file it writes is
there for the providers after it. A group makes a provider of its own, which
just holds the proxies of its list.
-/

namespace RuleBaseProxy.Provider

open Go Checked Structure

inductive VehicleType where
  | file
  | http
  | compatible
deriving DecidableEq

/-- `HealthCheck` as it is made; its proxies are those of the provider. -/
structure HealthCheck where
  url : Str
  interval : UInt64
  lazy : Bool

structure ProxyProvider (π : Type) where
  name : Str
  vehicleType : VehicleType
  proxies : List π
  healthCheck : HealthCheck

def reservedName : Str := str "default"

def newCompatibleProvider {π : Type} (name : Str) (proxies : List π) (hc : HealthCheck) :
    Except Str (ProxyProvider π) :=
  if proxies.isEmpty then .error (str "provider need one proxy at least")
  else .ok ⟨name, .compatible, proxies, hc⟩

/-- `proxyProviderSchema` with its `healthCheckSchema`. -/
structure Schema where
  type : Str
  path : Str
  url : Str
  interval : Int
  enable : Bool
  healthURL : Str
  healthInterval : Int
  lazy : Bool

inductive Vehicle where
  | file (path : Str)
  | http (url path : Str)

namespace Vehicle

def type : Vehicle → VehicleType
  | .file _ => .file
  | .http _ _ => .http

def path : Vehicle → Str
  | .file path => path
  | .http _ path => path

end Vehicle

structure ProxySet where
  name : Str
  vehicle : Vehicle
  healthCheck : HealthCheck

/-! ## The schema -/

def schemaFields : List (Field × Val) :=
  [(field "Type" "type", .string []), (field "Path" "path", .string []),
    (field "URL" "url,omitempty", .string []), (field "Interval" "interval,omitempty", .int 0),
    (field "HealthCheck" "health-check,omitempty", .struct
      [(field "Enable" "enable", .bool false), (field "URL" "url", .string []),
        (field "Interval" "interval", .int 0), (field "Lazy" "lazy,omitempty", .bool true)])]

def asString : Val → Str
  | .string s => s
  | _ => []

def asInt : Val → Int
  | .int n => n
  | _ => 0

def asBool : Val → Bool
  | .bool b => b
  | _ => false

def asFields : Val → List (Field × Val)
  | .struct fields => fields
  | _ => []

def Schema.ofFields (fields : List (Field × Val)) : Schema :=
  let healthCheck := (fields[4]?).elim [] (asFields ·.2)
  { type := (fields[0]?).elim [] (asString ·.2)
    path := (fields[1]?).elim [] (asString ·.2)
    url := (fields[2]?).elim [] (asString ·.2)
    interval := (fields[3]?).elim 0 (asInt ·.2)
    enable := (healthCheck[0]?).elim false (asBool ·.2)
    healthURL := (healthCheck[1]?).elim [] (asString ·.2)
    healthInterval := (healthCheck[2]?).elim 0 (asInt ·.2)
    lazy := (healthCheck[3]?).elim false (asBool ·.2) }

/-- `decoder.Decode`, weakly typed; `none` is a panic. -/
def decodeSchema (env : Env) (mapping : List (Str × Src)) : Option (Schema × Option Str) :=
  (Decode { env with weaklyTypedInput := true } mapping schemaFields).map
    fun (fields, err) => (.ofFields fields, err)

/-! ## What a provider reads -/

/-- The parser of a proxy, the files and the servers. -/
structure Outside (φ β μ π : Type) where
  /-- `C.Path.Resolve`. -/
  resolve : Str → Str
  /-- `os.Stat` finds the file. -/
  stat : φ → Str → Bool
  readFile : φ → Str → Except Str β
  safeWrite : φ → Str → β → Except Str φ
  get : Str → Except Str β
  /-- `yaml.Unmarshal`: the field `proxies`, which may be nil. -/
  unmarshal : β → Except Str (Option (List μ))
  /-- `adapter.ParseProxy`, which may panic. -/
  parseProxy : μ → Except (Failure Str) π

def parseProxyProvider (env : Env) (resolve : Str → Str) (name : Str)
    (mapping : List (Str × Src)) : Except (Failure Str) ProxySet :=
  match decodeSchema env mapping with
  | none => .error .panic
  | some (_, some err) => .error (.error err)
  | some (schema, none) =>
      let hcInterval : Int := if schema.enable then schema.healthInterval else 0
      let hc : HealthCheck := ⟨schema.healthURL, UInt64.ofInt hcInterval, schema.lazy⟩
      let path := resolve schema.path
      if schema.type = str "file" then .ok ⟨name, .file path, hc⟩
      else if schema.type = str "http" then .ok ⟨name, .http schema.url path, hc⟩
      else .error (.error (str "unsupport vehicle type: " ++ schema.type))

theorem parseProxyProvider_panic {env : Env} {resolve : Str → Str} {name : Str}
    {mapping : List (Str × Src)}
    (h : parseProxyProvider env resolve name mapping = .error .panic) :
    decodeSchema env mapping = none := by
  unfold parseProxyProvider at h
  split at h
  · assumption
  · cases h
  · dsimp only at h
    repeat' split at h
    all_goals cases h

/-- What `fetcher.Initial` has read and parsed, and the files after it. -/
structure Fetched (φ β π : Type) where
  buf : β
  proxies : List π
  files : φ

namespace Outside

variable {φ β μ π : Type} (out : Outside φ β μ π)

/-- `Read` of either vehicle. -/
def read (fs : φ) : Vehicle → Except Str β
  | .file path => out.readFile fs path
  | .http url _ => out.get url

/-- The loop of `proxiesParse` from the proxy `idx` on. -/
def parseAll : Nat → List μ → Except (Failure Str) (List π)
  | _, [] => .ok []
  | idx, mapping :: mappings =>
      match out.parseProxy mapping with
      | .error .panic => .error .panic
      | .error (.error err) => .error (.error (str "proxy " ++ itoa idx ++ str " error: " ++ err))
      | .ok proxy => (parseAll (idx + 1) mappings).map (proxy :: ·)

def proxiesParse (buf : β) : Except (Failure Str) (List π) :=
  match out.unmarshal buf with
  | .error err => .error (.error err)
  | .ok none => .error (.error (str "file must have a \x60proxies\x60 field"))
  | .ok (some mappings) =>
      match out.parseAll 0 mappings with
      | .error err => .error err
      | .ok [] => .error (.error (str "file doesn't have any valid proxy"))
      | .ok proxies => .ok proxies

/-- The end of `fetcher.Initial`: what did not come from the file is written to it. -/
def keep (fs : φ) (vehicle : Vehicle) (isLocal : Bool) (buf : β) (proxies : List π) :
    Except (Failure Str) (Fetched φ β π) :=
  if vehicle.type ≠ .file ∧ isLocal = false then
    (lift (out.safeWrite fs vehicle.path buf)).map fun files => ⟨buf, proxies, files⟩
  else .ok ⟨buf, proxies, fs⟩

def readFirst (fs : φ) (vehicle : Vehicle) : Except Str β :=
  if out.stat fs vehicle.path then out.readFile fs vehicle.path else out.read fs vehicle

/-- `fetcher.Initial`. A file that does not parse is not used; the source is. -/
def initial (fs : φ) (vehicle : Vehicle) : Except (Failure Str) (Fetched φ β π) := do
  let buf ← lift (out.readFirst fs vehicle)
  match out.proxiesParse buf with
  | .ok proxies => out.keep fs vehicle (out.stat fs vehicle.path) buf proxies
  | .error .panic => .error .panic
  | .error (.error err) =>
      if out.stat fs vehicle.path then do
        let buf ← lift (out.read fs vehicle)
        let proxies ← out.proxiesParse buf
        out.keep fs vehicle false buf proxies
      else .error (.error err)

/-- `proxySetProvider.Initial`. -/
def initialSet (fs : φ) (pd : ProxySet) : Except (Failure Str) (ProxyProvider π × φ) :=
  (out.initial fs pd.vehicle).map fun r =>
    (⟨pd.name, pd.vehicle.type, r.proxies, pd.healthCheck⟩, r.files)

/-! ## What a provider starts with -/

variable {out} {fs fs' : φ} {vehicle : Vehicle} {r : Fetched φ β π}

theorem proxiesParse_ne_nil {buf : β} {proxies : List π} (h : out.proxiesParse buf = .ok proxies) :
    proxies ≠ [] := by
  unfold proxiesParse at h
  split at h
  · cases h
  · cases h
  · split at h
    · cases h
    · cases h
    · cases h
      assumption

/-- `Initial` returns what one of its two reads gave and parsed to, and has left the files or
written that to the file of a provider that is not one of a file. -/
structure Starts (out : Outside φ β μ π) (fs : φ) (vehicle : Vehicle) (r : Fetched φ β π) :
    Prop where
  parses : out.proxiesParse r.buf = .ok r.proxies
  files : r.files = fs ∨
    vehicle.type ≠ .file ∧ out.safeWrite fs vehicle.path r.buf = .ok r.files

theorem starts_of_keep {isLocal : Bool} {buf : β} {proxies : List π}
    (hparse : out.proxiesParse buf = .ok proxies)
    (h : out.keep fs vehicle isLocal buf proxies = .ok r) : Starts out fs vehicle r := by
  unfold keep at h
  split at h
  · rename_i hhttp
    obtain ⟨files, hwrite, rfl⟩ := map_eq_ok.mp h
    exact ⟨hparse, Or.inr ⟨hhttp.1, lift_eq_ok.mp hwrite⟩⟩
  · cases h
    exact ⟨hparse, Or.inl rfl⟩

theorem starts_of_initial (h : out.initial fs vehicle = .ok r) : Starts out fs vehicle r := by
  obtain ⟨buf, -, h⟩ := bind_eq_ok.mp h
  cases hparse : out.proxiesParse buf with
  | ok ps =>
      simp only [hparse] at h
      exact starts_of_keep hparse h
  | error err =>
      simp only [hparse] at h
      cases err with
      | panic => cases h
      | error err =>
          simp only at h
          split at h
          · obtain ⟨buf', -, h⟩ := bind_eq_ok.mp h
            obtain ⟨ps, hparse', h⟩ := bind_eq_ok.mp h
            exact starts_of_keep hparse' h
          · cases h

theorem initialSet_eq_ok {set : ProxySet} {pd : ProxyProvider π}
    (h : out.initialSet fs set = .ok (pd, fs')) :
    pd.name = set.name ∧ pd.vehicleType ≠ .compatible ∧ pd.proxies ≠ [] := by
  obtain ⟨r, hinitial, heq⟩ := map_eq_ok.mp h
  cases heq
  refine ⟨rfl, ?_, proxiesParse_ne_nil (starts_of_initial hinitial).parses⟩
  cases set.vehicle <;> simp [Vehicle.type]

def source {η : Type} (out : Outside φ β μ π) (md5 : β → η) : Source β η (List π) :=
  ⟨md5, fun buf => (out.proxiesParse buf).toOption⟩

/-- The updates of a provider begin where `Initial` has left it. -/
theorem carriesParsed_of_initial {η : Type} (md5 : β → η) (h : out.initial fs vehicle = .ok r) :
    CarriesParsed (out.source md5) (Provider.initial (out.source md5) [] r.buf r.proxies) := by
  refine carriesParsed_initial ?_
  change (out.proxiesParse r.buf).toOption = some r.proxies
  rw [(starts_of_initial h).parses]
  rfl

/-! ## Where it panics -/

theorem parseAll_panic {idx : Nat} {mappings : List μ}
    (h : out.parseAll idx mappings = .error .panic) :
    ∃ mapping ∈ mappings, out.parseProxy mapping = .error .panic := by
  induction mappings generalizing idx with
  | nil => cases h
  | cons mapping mappings ih =>
      rw [parseAll] at h
      cases hparse : out.parseProxy mapping with
      | error err =>
          rw [hparse] at h
          cases err with
          | error err => cases h
          | panic => exact ⟨mapping, List.mem_cons_self, hparse⟩
      | ok proxy =>
          rw [hparse] at h
          cases hrest : out.parseAll (idx + 1) mappings with
          | ok proxies =>
              rw [hrest] at h
              cases h
          | error err =>
              rw [hrest] at h
              cases h
              obtain ⟨m, hm, hpanic⟩ := ih hrest
              exact ⟨m, List.mem_cons_of_mem mapping hm, hpanic⟩

def PanicsOn (out : Outside φ β μ π) (buf : β) : Prop :=
  ∃ mappings, out.unmarshal buf = .ok (some mappings) ∧
    ∃ mapping ∈ mappings, out.parseProxy mapping = .error .panic

theorem proxiesParse_panic {buf : β} (h : out.proxiesParse buf = .error .panic) :
    out.PanicsOn buf := by
  unfold proxiesParse at h
  split at h
  · cases h
  · cases h
  · rename_i mappings hunmarshal
    split at h
    · rename_i hparse
      cases h
      exact ⟨mappings, hunmarshal, parseAll_panic hparse⟩
    · cases h
    · cases h

theorem keep_ne_panic {isLocal : Bool} {buf : β} {proxies : List π} :
    out.keep fs vehicle isLocal buf proxies ≠ .error .panic := by
  intro h
  unfold keep at h
  split at h
  · cases hwrite : out.safeWrite fs vehicle.path buf with
    | error err =>
        rw [hwrite] at h
        cases h
    | ok files =>
        rw [hwrite] at h
        cases h
  · cases h

theorem initial_panic (h : out.initial fs vehicle = .error .panic) :
    ∃ buf, (out.readFile fs vehicle.path = .ok buf ∨ out.read fs vehicle = .ok buf) ∧
      out.PanicsOn buf := by
  obtain h | ⟨buf, hbuf, h⟩ := bind_eq_error.mp h
  · exact absurd h lift_ne_panic
  rw [lift_eq_ok] at hbuf
  cases hparse : out.proxiesParse buf with
  | ok ps =>
      simp only [hparse] at h
      exact absurd h keep_ne_panic
  | error err =>
      simp only [hparse] at h
      cases err with
      | panic =>
          refine ⟨buf, ?_, proxiesParse_panic hparse⟩
          unfold readFirst at hbuf
          split at hbuf
          · exact Or.inl hbuf
          · exact Or.inr hbuf
      | error err =>
          simp only at h
          split at h
          · obtain h | ⟨buf', hbuf', h⟩ := bind_eq_error.mp h
            · exact absurd h lift_ne_panic
            obtain h | ⟨ps, -, h⟩ := bind_eq_error.mp h
            · exact ⟨buf', Or.inr (lift_eq_ok.mp hbuf'), proxiesParse_panic h⟩
            · exact absurd h keep_ne_panic
          · cases h

theorem initialSet_panic {set : ProxySet} (h : out.initialSet fs set = .error .panic) :
    ∃ buf, (out.readFile fs set.vehicle.path = .ok buf ∨ out.read fs set.vehicle = .ok buf) ∧
      out.PanicsOn buf := by
  cases hinitial : out.initial fs set.vehicle with
  | ok r =>
      rw [initialSet, hinitial] at h
      cases h
  | error err =>
      rw [initialSet, hinitial] at h
      cases h
      exact initial_panic hinitial

/-! ## Providers with files of their own -/

/-- The files are the same for the provider at this path. -/
structure SameAt (out : Outside φ β μ π) (path : Str) (fs fs' : φ) : Prop where
  stat : out.stat fs path = out.stat fs' path
  readFile : out.readFile fs path = out.readFile fs' path
  safeWrite : ∀ buf, (∃ files, out.safeWrite fs path buf = .ok files) ↔
    ∃ files, out.safeWrite fs' path buf = .ok files

theorem SameAt.refl (out : Outside φ β μ π) (path : Str) (fs : φ) : out.SameAt path fs fs :=
  ⟨rfl, rfl, fun _ => Iff.rfl⟩

theorem SameAt.symm {path : Str} (h : out.SameAt path fs fs') : out.SameAt path fs' fs :=
  ⟨h.stat.symm, h.readFile.symm, fun buf => (h.safeWrite buf).symm⟩

theorem SameAt.trans {path : Str} {fs'' : φ} (h : out.SameAt path fs fs')
    (h' : out.SameAt path fs' fs'') : out.SameAt path fs fs'' :=
  ⟨h.stat.trans h'.stat, h.readFile.trans h'.readFile,
    fun buf => (h.safeWrite buf).trans (h'.safeWrite buf)⟩

/-- Whatever is written to the one path leaves what is at the other. -/
def Untouched (out : Outside φ β μ π) (written path : Str) : Prop :=
  ∀ fs buf fs', out.safeWrite fs written buf = .ok fs' → out.SameAt path fs fs'

theorem SameAt.read (h : out.SameAt vehicle.path fs fs') :
    out.read fs vehicle = out.read fs' vehicle := by
  cases vehicle with
  | file path => exact h.readFile
  | http url path => rfl

theorem SameAt.readFirst (h : out.SameAt vehicle.path fs fs') :
    out.readFirst fs vehicle = out.readFirst fs' vehicle := by
  unfold Outside.readFirst
  rw [h.stat, h.readFile, h.read]

theorem SameAt.keep (h : out.SameAt vehicle.path fs fs') {isLocal : Bool} {buf : β}
    {proxies : List π} (hkeep : out.keep fs' vehicle isLocal buf proxies = .ok r) :
    ∃ files, out.keep fs vehicle isLocal buf proxies = .ok ⟨r.buf, r.proxies, files⟩ := by
  unfold Outside.keep at hkeep ⊢
  split at hkeep
  · rename_i hhttp
    obtain ⟨files, hwrite, rfl⟩ := map_eq_ok.mp hkeep
    obtain ⟨files', hwrite'⟩ := (h.safeWrite buf).mpr ⟨files, lift_eq_ok.mp hwrite⟩
    refine ⟨files', ?_⟩
    rw [if_pos hhttp, hwrite']
    rfl
  · rename_i hlocal
    cases hkeep
    exact ⟨fs, by rw [if_neg hlocal]⟩

/-- A provider starts with the same if its files are the same. -/
theorem SameAt.initial (h : out.SameAt vehicle.path fs fs')
    (hinitial : out.initial fs' vehicle = .ok r) :
    ∃ files, out.initial fs vehicle = .ok ⟨r.buf, r.proxies, files⟩ := by
  unfold Outside.initial at hinitial ⊢
  obtain ⟨buf, hbuf, hinitial⟩ := bind_eq_ok.mp hinitial
  rw [h.readFirst, hbuf, h.stat, h.read]
  cases hparse : out.proxiesParse buf with
  | ok ps =>
      simp only [hparse] at hinitial
      obtain ⟨files, hkeep⟩ := h.keep hinitial
      exact ⟨files, bind_eq_ok.mpr ⟨buf, rfl, by simpa only [hparse] using hkeep⟩⟩
  | error err =>
      simp only [hparse] at hinitial
      cases err with
      | panic => cases hinitial
      | error err =>
          simp only at hinitial
          split at hinitial
          · rename_i hstat
            obtain ⟨buf', hbuf', hinitial⟩ := bind_eq_ok.mp hinitial
            obtain ⟨ps, hparse', hinitial⟩ := bind_eq_ok.mp hinitial
            obtain ⟨files, hkeep⟩ := h.keep hinitial
            refine ⟨files, bind_eq_ok.mpr ⟨buf, rfl, ?_⟩⟩
            simp only [hparse, if_pos hstat]
            exact bind_eq_ok.mpr ⟨buf', hbuf', bind_eq_ok.mpr ⟨ps, hparse', hkeep⟩⟩
          · cases hinitial

theorem SameAt.initialSet {set : ProxySet} {pd : ProxyProvider π} {files : φ}
    (h : out.SameAt set.vehicle.path fs fs') (hset : out.initialSet fs' set = .ok (pd, files)) :
    ∃ files', out.initialSet fs set = .ok (pd, files') := by
  obtain ⟨r, hinitial, heq⟩ := map_eq_ok.mp hset
  cases heq
  obtain ⟨files', hinitial'⟩ := h.initial hinitial
  exact ⟨files', map_eq_ok.mpr ⟨_, hinitial', rfl⟩⟩

/-- A provider leaves the files of one whose path it does not write to. -/
theorem sameAt_of_initialSet {set : ProxySet} {pd : ProxyProvider π} {path : Str}
    (h : set.vehicle.type ≠ .file → out.Untouched set.vehicle.path path)
    (hset : out.initialSet fs set = .ok (pd, fs')) : out.SameAt path fs fs' := by
  obtain ⟨r, hinitial, heq⟩ := map_eq_ok.mp hset
  cases heq
  rcases (starts_of_initial hinitial).files with hfiles | ⟨hhttp, hwrite⟩
  · rw [hfiles]
    exact SameAt.refl out path fs
  · exact h hhttp fs r.buf r.files hwrite

end Outside

end RuleBaseProxy.Provider
