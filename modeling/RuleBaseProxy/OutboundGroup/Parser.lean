import RuleBaseProxy.Provider.ProxySet

/-! # Parsing a proxy group

`ParseProxyGroup` decodes the mapping of a group, looks up the proxies and the
providers it names and makes the group of its type. A group with a list of
proxies gets a provider of its own for them, which it puts among the providers
under its name unless it uses others as well.
-/

namespace RuleBaseProxy.OutboundGroup.Parser

open Go Structure Provider Checked

/-! ## The options of a group -/

structure GroupCommonOption where
  name : Str
  type : Str
  proxies : List Str
  use : List Str
  url : Str
  interval : Int
  lazy : Bool
  disableUDP : Bool

def asStrings : Val → List Str
  | .slice _ xs => xs.map asString
  | _ => []

def GroupCommonOption.ofFields (fields : List (Field × Val)) : GroupCommonOption where
  name := (fields[0]?).elim [] (asString ·.2)
  type := (fields[1]?).elim [] (asString ·.2)
  proxies := (fields[2]?).elim [] (asStrings ·.2)
  use := (fields[3]?).elim [] (asStrings ·.2)
  url := (fields[4]?).elim [] (asString ·.2)
  interval := (fields[5]?).elim 0 (asInt ·.2)
  lazy := (fields[6]?).elim false (asBool ·.2)
  disableUDP := (fields[7]?).elim false (asBool ·.2)

/-- `decoder.Decode`, weakly typed; `none` is a panic. -/
def decodeOption (env : Env) (lazy : Bool) (config : List (Str × Src)) :
    Option (GroupCommonOption × Option Str) :=
  (Decode { env with weaklyTypedInput := true } config (optionFields lazy)).map
    fun (fields, err) => (.ofFields fields, err)

structure GroupMapping (env : Env) where
  config : List (Str × Src)

namespace GroupMapping

variable {env : Env}

def Returns (mapping : GroupMapping env) (lazy : Bool) : Prop :=
  (decodeOption env lazy mapping.config).isSome = true

instance (mapping : GroupMapping env) (lazy : Bool) : Decidable (mapping.Returns lazy) :=
  inferInstanceAs (Decidable (_ = true))

/-- The option as far as it was filled, and the error, where the decoder returns. -/
def decode (mapping : GroupMapping env) (lazy : Bool) : GroupCommonOption × Option Str :=
  (decodeOption env lazy mapping.config).getD (⟨[], [], [], [], [], 0, false, false⟩, none)

/-- `mapping["name"].(string)`. -/
def nameString (mapping : GroupMapping env) : Option Str :=
  match mapping.config.lookup (str "name") with
  | some (.str s) => some s
  | _ => none

end GroupMapping

/-! ## Proxies and groups -/

/-- What `ParseProxy` makes: a proxy that is not a group. -/
structure Outbound (σ : Type) where
  name : Str
  settings : σ

inductive Strategy where
  | consistentHashing
  | roundRobin

/-- The types of group, with what their constructors start with. -/
inductive GroupKind (π : Type) where
  | urlTest (tolerance : UInt16) (fastNode : π)
  | selector (sedProxy : π)
  | fallback
  | loadBalance (strategy : Strategy)
  | relay

inductive Proxy (σ : Type) where
  | direct
  | reject
  | outbound (o : Outbound σ)
  | group (option : GroupCommonOption) (kind : GroupKind (Proxy σ))
      (providers : List (ProxyProvider (Proxy σ)))

def Proxy.name {σ : Type} : Proxy σ → Str
  | .direct => str "DIRECT"
  | .reject => str "REJECT"
  | .outbound o => o.name
  | .group option _ _ => option.name

abbrev NameMap (α : Type) := Str → Option α

inductive GroupError where
  /-- `errFormat` -/
  | format
  /-- `errMissProxy` -/
  | missProxy
  /-- `errMissHealthCheck` -/
  | missHealthCheck
  /-- `errDuplicateProvider` -/
  | duplicateProvider
  /-- `errType` -/
  | type (tp : Str)
  /-- `errStrategy` -/
  | strategy (strategy : Str)
  /-- "'%s' not found" -/
  | notFound (name : Str)
  /-- "proxy group %s can't contains in `use`" -/
  | useOfGroup (name : Str)
  /-- of `NewCompatibleProvider` -/
  | provider (err : Str)

abbrev Parse (α : Type) := Except (Failure GroupError) α

section Parser

variable {σ : Type}

/-- The body of the loop of `getProxies`. -/
def getProxy (mapping : NameMap (Proxy σ)) (name : Str) : Parse (Proxy σ) :=
  match mapping name with
  | none => .error (.error (.notFound name))
  | some p => .ok p

def getProxies (mapping : NameMap (Proxy σ)) (list : List Str) : Parse (List (Proxy σ)) :=
  list.mapM (getProxy mapping)

/-- The body of the loop of `getProviders`. -/
def getProvider (mapping : NameMap (ProxyProvider (Proxy σ))) (name : Str) :
    Parse (ProxyProvider (Proxy σ)) :=
  match mapping name with
  | none => .error (.error (.notFound name))
  | some p => if p.vehicleType = .compatible then .error (.error (.useOfGroup name)) else .ok p

def getProviders (mapping : NameMap (ProxyProvider (Proxy σ))) (list : List Str) :
    Parse (List (ProxyProvider (Proxy σ))) :=
  list.mapM (getProvider mapping)

/-- `NewHealthCheck(ps, "", 0, true)`. -/
def noHealthCheck : HealthCheck := ⟨[], 0, true⟩

def newOwn (groupOption : GroupCommonOption) (ps : List (Proxy σ)) (hc : HealthCheck) :
    Parse (ProxyProvider (Proxy σ)) :=
  (newCompatibleProvider groupOption.name ps hc).mapError fun err => .error (.provider err)

/-- The part of `ParseProxyGroup` for the list of proxies: the first providers of the
group, and the map of providers afterwards. -/
def parseProxyList (groupOption : GroupCommonOption) (proxyMap : NameMap (Proxy σ))
    (providersMap : NameMap (ProxyProvider (Proxy σ))) :
    Parse (List (ProxyProvider (Proxy σ)) × NameMap (ProxyProvider (Proxy σ))) :=
  if groupOption.proxies = [] then .ok ([], providersMap)
  else do
    let ps ← getProxies proxyMap groupOption.proxies
    if groupOption.use ≠ [] then do
      let pd ← newOwn groupOption ps noHealthCheck
      .ok ([pd], providersMap)
    else if (providersMap groupOption.name).isSome then .error (.error .duplicateProvider)
    else if groupOption.type = str "select" ∨ groupOption.type = str "relay" then do
      let pd ← newOwn groupOption ps noHealthCheck
      .ok ([pd], Function.update providersMap groupOption.name (some pd))
    else if groupOption.url = [] ∨ groupOption.interval = 0 then
      .error (.error .missHealthCheck)
    else do
      let pd ← newOwn groupOption ps
        ⟨groupOption.url, UInt64.ofInt groupOption.interval, groupOption.lazy⟩
      .ok ([pd], Function.update providersMap groupOption.name (some pd))

/-- The part of `ParseProxyGroup` for `use`. -/
def parseUse (groupOption : GroupCommonOption)
    (providersMap : NameMap (ProxyProvider (Proxy σ))) : Parse (List (ProxyProvider (Proxy σ))) :=
  if groupOption.use = [] then .ok [] else getProviders providersMap groupOption.use

/-- `parseURLTestOption`; the tolerance is zero without it. -/
def parseTolerance (config : List (Str × Src)) : UInt16 :=
  match config.lookup (str "tolerance") with
  | some (.int tolerance) => UInt16.ofInt tolerance
  | _ => 0

def parseStrategy (config : List (Str × Src)) : Str :=
  match config.lookup (str "strategy") with
  | some (.str strategy) => strategy
  | _ => str "consistent-hashing"

/-- `providers[0].Proxies()[0]`. -/
def firstProxy (providers : List (ProxyProvider (Proxy σ))) : Parse (Proxy σ) :=
  match providers.head?.bind (·.proxies.head?) with
  | none => .error .panic
  | some p => .ok p

def newSelector (option : GroupCommonOption) (providers : List (ProxyProvider (Proxy σ))) :
    Parse (Proxy σ) := do
  let sedProxy ← firstProxy providers
  .ok (.group option (.selector sedProxy) providers)

def newURLTest (option : GroupCommonOption) (providers : List (ProxyProvider (Proxy σ)))
    (tolerance : UInt16) : Parse (Proxy σ) := do
  let fastNode ← firstProxy providers
  .ok (.group option (.urlTest tolerance fastNode) providers)

def newLoadBalance (option : GroupCommonOption) (providers : List (ProxyProvider (Proxy σ)))
    (strategy : Str) : Parse (Proxy σ) :=
  if strategy = str "consistent-hashing" then
    .ok (.group option (.loadBalance .consistentHashing) providers)
  else if strategy = str "round-robin" then
    .ok (.group option (.loadBalance .roundRobin) providers)
  else .error (.error (.strategy strategy))

/-- The switch at the end of `ParseProxyGroup`. -/
def newGroup (config : List (Str × Src)) (option : GroupCommonOption)
    (providers : List (ProxyProvider (Proxy σ))) : Parse (Proxy σ) :=
  if option.type = str "url-test" then newURLTest option providers (parseTolerance config)
  else if option.type = str "select" then newSelector option providers
  else if option.type = str "fallback" then .ok (.group option .fallback providers)
  else if option.type = str "load-balance" then
    newLoadBalance option providers (parseStrategy config)
  else if option.type = str "relay" then .ok (.group option .relay providers)
  else .error (.error (.type option.type))

variable {env : Env}

/-- The group, and the map of providers afterwards. -/
def parseProxyGroup (mapping : GroupMapping env) (proxyMap : NameMap (Proxy σ))
    (providersMap : NameMap (ProxyProvider (Proxy σ))) :
    Parse (Proxy σ × NameMap (ProxyProvider (Proxy σ))) :=
  let groupOption := (mapping.decode true).1
  if ¬ mapping.Returns true then .error .panic
  else if (mapping.decode true).2.isSome then .error (.error .format)
  else if groupOption.type = [] ∨ groupOption.name = [] then .error (.error .format)
  else if groupOption.proxies = [] ∧ groupOption.use = [] then .error (.error .missProxy)
  else do
    let (own, providersMap) ← parseProxyList groupOption proxyMap providersMap
    let list ← parseUse groupOption providersMap
    let group ← newGroup mapping.config groupOption (own ++ list)
    .ok (group, providersMap)

end Parser

/-! ## The options that both decoders read -/

section Options

variable (env : Env) (src : List (Str × Src))

/-- The loop over the fields panics at a field, ends there with an error, or goes on,
whatever the fields behind it. -/
theorem Decode_cons (f : Field) (v : Val) :
    (∀ rest, Decode env src ((f, v) :: rest) = none) ∨
      (∃ v' err, ∀ rest, Decode env src ((f, v) :: rest) = some ((f, v') :: rest, some err)) ∨
      ∃ v', ∀ rest, Decode env src ((f, v) :: rest) =
        (Decode env src rest).map fun r => ((f, v') :: r.1, r.2) := by
  simp only [Decode]
  split
  · split
    · exact Or.inr (Or.inr ⟨v, fun _ => rfl⟩)
    · exact Or.inr (Or.inl ⟨v, _, fun _ => rfl⟩)
  · cases decode env ((src.lookup f.key).getD .null) f.key (Access.rw.field f) v with
    | none => exact Or.inl fun _ => rfl
    | some r =>
        obtain ⟨v', err⟩ := r
        cases err with
        | none => exact Or.inr (Or.inr ⟨v', fun _ => rfl⟩)
        | some err => exact Or.inr (Or.inl ⟨v', err, fun _ => rfl⟩)

theorem Decode_append (a : List (Field × Val)) :
    (∀ b, Decode env src (a ++ b) = none) ∨
      (∃ a' err, a'.length = a.length ∧ ∀ b, Decode env src (a ++ b) = some (a' ++ b, some err)) ∨
      ∃ a', a'.length = a.length ∧ ∀ b, Decode env src (a ++ b) =
        (Decode env src b).map fun r => (a' ++ r.1, r.2) := by
  induction a with
  | nil =>
      refine Or.inr (Or.inr ⟨[], rfl, fun b => ?_⟩)
      simp
  | cons fv a ih =>
      obtain ⟨f, v⟩ := fv
      simp only [List.cons_append]
      rcases Decode_cons env src f v with hcons | ⟨v', err, hcons⟩ | ⟨v', hcons⟩
      · exact Or.inl fun b => hcons _
      · exact Or.inr (Or.inl ⟨(f, v') :: a, err, rfl, fun b => hcons _⟩)
      · simp only [hcons]
        rcases ih with ih | ⟨a', err, hlen, ih⟩ | ⟨a', hlen, ih⟩
        · exact Or.inl fun b => by rw [ih, Option.map_none]
        · refine Or.inr (Or.inl ⟨(f, v') :: a', err, congrArg (· + 1) hlen, fun b => ?_⟩)
          rw [ih]
          rfl
        · refine Or.inr (Or.inr ⟨(f, v') :: a', congrArg (· + 1) hlen, fun b => ?_⟩)
          rw [ih, Option.map_map]
          rfl

/-- What a flag is beforehand makes no difference to the error. -/
theorem decode_bool_snd (value : Src) (name : Str) (access : Access) (b c : Bool) :
    (decode env value name access (.bool b)).map Prod.snd =
      (decode env value name access (.bool c)).map Prod.snd := by
  cases value with
  | int n =>
      simp only [decode, decodeData, decodeBool]
      split <;> rfl
  | _ => rfl

theorem Decode_cons_snd_congr {v w : Val} (f : Field) (rest : List (Field × Val))
    (h : ∀ value name access, (decode env value name access v).map Prod.snd =
      (decode env value name access w).map Prod.snd) :
    (Decode env src ((f, v) :: rest)).map Prod.snd =
      (Decode env src ((f, w) :: rest)).map Prod.snd := by
  have hvalue := h ((src.lookup f.key).getD .null) f.key (Access.rw.field f)
  simp only [Decode]
  split
  · split
    · rw [Option.map_map, Option.map_map]
      rfl
    · rfl
  · cases hv : decode env ((src.lookup f.key).getD .null) f.key (Access.rw.field f) v with
    | none =>
        rw [hv, Option.map_none, eq_comm, Option.map_eq_none_iff] at hvalue
        rw [hvalue]
    | some r =>
        rw [hv, Option.map_some, eq_comm, Option.map_eq_some_iff] at hvalue
        obtain ⟨r', hr', hsnd⟩ := hvalue
        rw [hr']
        obtain ⟨v', err⟩ := r
        obtain ⟨w', err'⟩ := r'
        cases hsnd
        cases err with
        | none =>
            simp only [Option.map_map]
            rfl
        | some err => rfl

theorem Decode_optionFields_snd (b c : Bool) :
    (Decode env src (optionFields b)).map Prod.snd =
      (Decode env src (optionFields c)).map Prod.snd := by
  have hflags := Decode_cons_snd_congr env src (field "Lazy" "lazy,omitempty")
    [(field "DisableUDP" "disable-udp,omitempty", .bool false)]
    fun value name access => decode_bool_snd env value name access b c
  unfold optionFields
  rcases Decode_append env src plainFields with h | ⟨a', err, -, h⟩ | ⟨a', -, h⟩
  · rw [h, h]
  · rw [h, h]
    rfl
  · rw [h, h, Option.map_map, Option.map_map]
    exact hflags

variable {env src}

/-- The fields before `Lazy` are the same whatever it is. -/
theorem decodeOption_congr {b c : Bool} {r r' : GroupCommonOption × Option Str}
    (hr : decodeOption env b src = some r) (hr' : decodeOption env c src = some r') :
    r.1.name = r'.1.name ∧ r.1.proxies = r'.1.proxies ∧ r.2 = r'.2 := by
  obtain ⟨fields, hfields, rfl⟩ := Option.map_eq_some_iff.mp hr
  obtain ⟨fields', hfields', rfl⟩ := Option.map_eq_some_iff.mp hr'
  have hsnd := Decode_optionFields_snd { env with weaklyTypedInput := true } src b c
  rw [hfields, hfields'] at hsnd
  have hlist : ∃ a x x', a.length = plainFields.length ∧ fields.1 = a ++ x ∧
      fields'.1 = a ++ x' := by
    rw [optionFields] at hfields hfields'
    rcases Decode_append { env with weaklyTypedInput := true } src plainFields with
      h | ⟨a', err, hlen, h⟩ | ⟨a', hlen, h⟩
    · rw [h] at hfields
      cases hfields
    · rw [h] at hfields hfields'
      cases hfields
      cases hfields'
      exact ⟨a', _, _, hlen, rfl, rfl⟩
    · rw [h] at hfields hfields'
      obtain ⟨x, -, rfl⟩ := Option.map_eq_some_iff.mp hfields
      obtain ⟨x', -, rfl⟩ := Option.map_eq_some_iff.mp hfields'
      exact ⟨a', _, _, hlen, rfl, rfl⟩
  obtain ⟨a, x, x', hlen, hx, hx'⟩ := hlist
  have hat : ∀ i, i < 6 → fields.1[i]? = fields'.1[i]? := by
    intro i hi
    rw [hx, hx', List.getElem?_append_left (by rw [hlen]; exact hi),
      List.getElem?_append_left (by rw [hlen]; exact hi)]
  simp only [GroupCommonOption.ofFields, hat 0 (by decide), hat 2 (by decide), true_and]
  exact Option.some.inj hsnd

namespace GroupMapping

theorem returns_iff (mapping : GroupMapping env) (b c : Bool) :
    mapping.Returns b ↔ mapping.Returns c := by
  have hsnd := congrArg Option.isSome
    (Decode_optionFields_snd { env with weaklyTypedInput := true } mapping.config b c)
  rw [Option.isSome_map, Option.isSome_map] at hsnd
  rw [Returns, Returns, decodeOption, decodeOption, Option.isSome_map, Option.isSome_map, hsnd]

theorem Returns.decode_eq {mapping : GroupMapping env} {lazy : Bool} (h : mapping.Returns lazy) :
    decodeOption env lazy mapping.config = some (mapping.decode lazy) := by
  obtain ⟨r, hr⟩ := Option.isSome_iff_exists.mp h
  rw [decode, hr, Option.getD_some]

theorem decode_eq (mapping : GroupMapping env) (b c : Bool) :
    (mapping.decode b).1.name = (mapping.decode c).1.name ∧
      (mapping.decode b).1.proxies = (mapping.decode c).1.proxies ∧
      (mapping.decode b).2 = (mapping.decode c).2 := by
  by_cases h : mapping.Returns b
  · exact decodeOption_congr h.decode_eq ((mapping.returns_iff b c).mp h).decode_eq
  · have h' : ¬ mapping.Returns c := fun hc => h ((mapping.returns_iff b c).mpr hc)
    rw [Returns, Option.not_isSome_iff_eq_none] at h h'
    rw [decode, decode, h, h']
    exact ⟨rfl, rfl, rfl⟩

theorem decode_name {mapping : GroupMapping env} {name : Str} {lazy : Bool}
    (hreturns : mapping.Returns lazy) (h : mapping.nameString = some name) :
    (mapping.decode lazy).1.name = name := by
  have hlookup : mapping.config.lookup (str "name") = some (.str name) := by
    unfold nameString at h
    split at h
    · rename_i s hs
      rw [hs, Option.some.inj h]
    · cases h
  obtain ⟨fields, hfields, heq⟩ := Option.map_eq_some_iff.mp hreturns.decode_eq
  have hkey : (field "Name" "name").key = str "name" := by decide
  have hhead : ∀ rest, Decode { env with weaklyTypedInput := true } mapping.config
      ((field "Name" "name", .string []) :: rest) =
        (Decode { env with weaklyTypedInput := true } mapping.config rest).map
          fun r => ((field "Name" "name", .string name) :: r.1, r.2) := by
    intro rest
    simp only [Decode, hkey, hlookup, Option.getD_some]
    rfl
  rw [optionFields, plainFields, List.cons_append, hhead] at hfields
  obtain ⟨r, -, rfl⟩ := Option.map_eq_some_iff.mp hfields
  rw [← heq]
  rfl

end GroupMapping

end Options

/-! ## What is accepted -/

section Accepted

variable {σ : Type} {env : Env} {mapping : GroupMapping env} {proxyMap : NameMap (Proxy σ)}
  {providersMap providersMap' : NameMap (ProxyProvider (Proxy σ))} {option : GroupCommonOption}
  {ps : List (Proxy σ)} {list : List (ProxyProvider (Proxy σ))} {group : Proxy σ}

theorem getProxy_eq_ok {name : Str} {p : Proxy σ} :
    getProxy proxyMap name = .ok p ↔ proxyMap name = some p := by
  unfold getProxy
  cases proxyMap name <;> simp

theorem getProvider_eq_ok {name : Str} {pd : ProxyProvider (Proxy σ)} :
    getProvider providersMap name = .ok pd ↔
      providersMap name = some pd ∧ pd.vehicleType ≠ .compatible := by
  unfold getProvider
  cases providersMap name with
  | none => simp
  | some p =>
      simp only [Option.some.injEq]
      split
      · rename_i hcompatible
        constructor
        · intro h
          cases h
        · rintro ⟨rfl, hne⟩
          exact absurd hcompatible hne
      · rename_i hne
        constructor
        · intro h
          cases h
          exact ⟨rfl, hne⟩
        · rintro ⟨rfl, -⟩
          rfl

def Finds (proxyMap : NameMap (Proxy σ)) (names : List Str) (ps : List (Proxy σ)) : Prop :=
  List.Forall₂ (fun name p => proxyMap name = some p) names ps

/-- The names in `use` stand for these providers, and none of them belongs to a group. -/
def Uses (providersMap : NameMap (ProxyProvider (Proxy σ))) (names : List Str)
    (list : List (ProxyProvider (Proxy σ))) : Prop :=
  List.Forall₂ (fun name pd => providersMap name = some pd ∧ pd.vehicleType ≠ .compatible) names list

theorem getProxies_eq_ok {names : List Str} :
    getProxies proxyMap names = .ok ps ↔ Finds proxyMap names ps := by
  rw [getProxies, mapM_eq_ok, Finds]
  simp only [getProxy_eq_ok]

theorem parseUse_eq_ok : parseUse option providersMap = .ok list ↔
    Uses providersMap option.use list := by
  rw [parseUse, Uses]
  split
  · rename_i huse
    rw [huse, List.forall₂_nil_left_iff]
    exact ⟨fun h => (Except.ok.inj h).symm, fun h => congrArg Except.ok h.symm⟩
  · rw [getProviders, mapM_eq_ok]
    simp only [getProvider_eq_ok]

theorem newOwn_eq_ok {hc : HealthCheck} {pd : ProxyProvider (Proxy σ)} :
    newOwn option ps hc = .ok pd ↔ ps ≠ [] ∧ pd = ⟨option.name, .compatible, ps, hc⟩ := by
  cases ps with
  | nil => simp [newOwn, newCompatibleProvider, Except.mapError]
  | cons p ps =>
      simp only [newOwn, newCompatibleProvider, List.isEmpty_cons, Except.mapError]
      exact ⟨fun h => ⟨List.cons_ne_nil p ps, (Except.ok.inj h).symm⟩,
        fun h => congrArg Except.ok h.2.symm⟩

/-- A group that is not told what to test or that uses other providers tests nothing. -/
def ownHealthCheck (option : GroupCommonOption) : HealthCheck :=
  if option.use ≠ [] ∨ option.type = str "select" ∨ option.type = str "relay" then noHealthCheck
  else ⟨option.url, UInt64.ofInt option.interval, option.lazy⟩

def ownProvider (option : GroupCommonOption) (ps : List (Proxy σ)) : ProxyProvider (Proxy σ) :=
  ⟨option.name, .compatible, ps, ownHealthCheck option⟩

def ownProviders (option : GroupCommonOption) (ps : List (Proxy σ)) :
    List (ProxyProvider (Proxy σ)) :=
  if option.proxies = [] then [] else [ownProvider option ps]

/-- The providers after a group, which only a group without `use` adds to. -/
def register (option : GroupCommonOption) (ps : List (Proxy σ))
    (providersMap : NameMap (ProxyProvider (Proxy σ))) : NameMap (ProxyProvider (Proxy σ)) :=
  if option.proxies ≠ [] ∧ option.use = [] then
    Function.update providersMap option.name (some (ownProvider option ps))
  else providersMap

/-- A group with nothing but a list has a name that no provider has, and says how to test
the proxies unless it needs no test. -/
def OwnAllowed (option : GroupCommonOption) (free : Prop) : Prop :=
  option.proxies ≠ [] → option.use = [] → free ∧
    (option.type = str "select" ∨ option.type = str "relay" ∨
      option.url ≠ [] ∧ option.interval ≠ 0)

theorem Finds.ne_nil {names : List Str} (h : Finds proxyMap names ps) (hnames : names ≠ []) :
    ps ≠ [] := by
  rintro rfl
  exact hnames (List.forall₂_nil_right_iff.mp h)

theorem newOwn_bind_eq_ok {hc : HealthCheck} {own : List (ProxyProvider (Proxy σ))}
    {f : ProxyProvider (Proxy σ) → NameMap (ProxyProvider (Proxy σ))} (hps : ps ≠ []) :
    (newOwn option ps hc >>= fun pd => .ok ([pd], f pd)) = .ok (own, providersMap') ↔
      own = [⟨option.name, .compatible, ps, hc⟩] ∧
        providersMap' = f ⟨option.name, .compatible, ps, hc⟩ := by
  rw [bind_eq_ok]
  constructor
  · rintro ⟨pd, hpd, h⟩
    obtain ⟨-, rfl⟩ := newOwn_eq_ok.mp hpd
    cases h
    exact ⟨rfl, rfl⟩
  · rintro ⟨rfl, rfl⟩
    exact ⟨_, newOwn_eq_ok.mpr ⟨hps, rfl⟩, rfl⟩

theorem parseProxyList_eq_ok {own : List (ProxyProvider (Proxy σ))} :
    parseProxyList option proxyMap providersMap = .ok (own, providersMap') ↔
      ∃ ps, Finds proxyMap option.proxies ps ∧ OwnAllowed option (providersMap option.name = none) ∧
        own = ownProviders option ps ∧ providersMap' = register option ps providersMap := by
  by_cases hproxies : option.proxies = []
  · simp [parseProxyList, hproxies, Finds, OwnAllowed, ownProviders, register, eq_comm]
  · rw [parseProxyList, if_neg hproxies, bind_eq_ok]
    refine exists_congr fun ps => ?_
    rw [getProxies_eq_ok]
    refine and_congr_right fun hfinds => ?_
    have hps := hfinds.ne_nil hproxies
    rw [ownProviders, if_neg hproxies, register, ownProvider, ownHealthCheck, OwnAllowed]
    by_cases huse : option.use = []
    · simp only [huse, ne_eq, not_true_eq_false, ↓reduceIte, hproxies, not_false_eq_true,
        true_and, false_or, forall_const]
      by_cases hname : providersMap option.name = none
      · simp only [hname, Option.isSome_none, Bool.false_eq_true, ↓reduceIte, true_and]
        by_cases hplain : option.type = str "select" ∨ option.type = str "relay"
        · rw [if_pos hplain, if_pos hplain, newOwn_bind_eq_ok hps]
          rw [← or_assoc]
          simp only [hplain, true_or, true_and]
        · rw [if_neg hplain, if_neg hplain, ← or_assoc]
          simp only [hplain, false_or]
          by_cases htest : option.url = [] ∨ option.interval = 0
          · rw [if_pos htest]
            refine iff_of_false (by simp) ?_
            rintro ⟨⟨hurl, hinterval⟩, -⟩
            exact htest.elim hurl hinterval
          · rw [if_neg htest, newOwn_bind_eq_ok hps]
            rw [not_or] at htest
            simp only [htest, not_false_eq_true, and_self, true_and]
      · simp [hname, Option.isSome_iff_ne_none]
    · simp only [huse, ne_eq, not_false_eq_true, ↓reduceIte, newOwn_bind_eq_ok hps, true_or,
        and_false, false_implies, implies_true, true_and]

def KnownType (config : List (Str × Src)) (option : GroupCommonOption) : Prop :=
  option.type ∈ [str "url-test", str "select", str "fallback", str "relay"] ∨
    option.type = str "load-balance" ∧
      parseStrategy config ∈ [str "consistent-hashing", str "round-robin"]

def HasFirst (providers : List (ProxyProvider (Proxy σ))) : Prop :=
  ∃ pd rest, providers = pd :: rest ∧ pd.proxies ≠ []

theorem HasFirst.firstProxy_eq {providers : List (ProxyProvider (Proxy σ))}
    (h : HasFirst providers) : ∃ p, firstProxy providers = .ok p := by
  obtain ⟨pd, rest, rfl, hne⟩ := h
  obtain ⟨p, proxies, hproxies⟩ := List.exists_cons_of_ne_nil hne
  exact ⟨p, by simp [firstProxy, hproxies]⟩

theorem newGroup_name {config : List (Str × Src)} (h : newGroup config option list = .ok group) :
    group.name = option.name := by
  unfold newGroup newURLTest newSelector newLoadBalance at h
  split at h
  · obtain ⟨p, -, h⟩ := bind_eq_ok.mp h
    cases h
    rfl
  · split at h
    · obtain ⟨p, -, h⟩ := bind_eq_ok.mp h
      cases h
      rfl
    · repeat' split at h
      all_goals
        cases h
      all_goals
        rfl

/-- The switch comes to a group exactly for a known type, and never panics. -/
theorem newGroup_of_hasFirst (config : List (Str × Src)) (option : GroupCommonOption)
    (h : HasFirst list) :
    ((∃ group, newGroup config option list = .ok group) ↔ KnownType config option) ∧
      newGroup config option list ≠ .error .panic := by
  obtain ⟨p, hp⟩ := h.firstProxy_eq
  have hok : ∀ {group : Proxy σ} {x : Parse (Proxy σ)}, x = .ok group → KnownType config option →
      ((∃ group, x = .ok group) ↔ KnownType config option) ∧ x ≠ .error .panic := by
    rintro group x rfl hknown
    exact ⟨iff_of_true ⟨group, rfl⟩ hknown, by simp⟩
  unfold newGroup newURLTest newSelector newLoadBalance
  by_cases hURLTest : option.type = str "url-test"
  · rw [if_pos hURLTest, hp]
    exact hok rfl (Or.inl (by simp [hURLTest]))
  by_cases hselect : option.type = str "select"
  · rw [if_neg hURLTest, if_pos hselect, hp]
    exact hok rfl (Or.inl (by simp [hselect]))
  by_cases hfallback : option.type = str "fallback"
  · rw [if_neg hURLTest, if_neg hselect, if_pos hfallback]
    exact hok rfl (Or.inl (by simp [hfallback]))
  by_cases hbalance : option.type = str "load-balance"
  · rw [if_neg hURLTest, if_neg hselect, if_neg hfallback, if_pos hbalance]
    by_cases hhash : parseStrategy config = str "consistent-hashing"
    · rw [if_pos hhash]
      exact hok rfl (Or.inr ⟨hbalance, by simp [hhash]⟩)
    by_cases hrobin : parseStrategy config = str "round-robin"
    · rw [if_neg hhash, if_pos hrobin]
      exact hok rfl (Or.inr ⟨hbalance, by simp [hrobin]⟩)
    rw [if_neg hhash, if_neg hrobin]
    refine ⟨iff_of_false (by simp) ?_, by simp⟩
    rintro (htype | ⟨-, hstrategy⟩)
    · rw [hbalance] at htype
      exact absurd htype (by decide)
    · simp [hhash, hrobin] at hstrategy
  by_cases hrelay : option.type = str "relay"
  · rw [if_neg hURLTest, if_neg hselect, if_neg hfallback, if_neg hbalance, if_pos hrelay]
    exact hok rfl (Or.inl (by simp [hrelay]))
  rw [if_neg hURLTest, if_neg hselect, if_neg hfallback, if_neg hbalance, if_neg hrelay]
  refine ⟨iff_of_false (by simp) ?_, by simp⟩
  rintro (htype | ⟨htype, -⟩)
  · simp [hURLTest, hselect, hfallback, hrelay] at htype
  · exact hbalance htype

structure Complete (mapping : GroupMapping env) : Prop where
  returns : mapping.Returns true
  decodes : (mapping.decode true).2 = none
  type : (mapping.decode true).1.type ≠ []
  name : (mapping.decode true).1.name ≠ []
  members : ¬ ((mapping.decode true).1.proxies = [] ∧ (mapping.decode true).1.use = [])

structure Makes (mapping : GroupMapping env) (proxyMap : NameMap (Proxy σ))
    (providersMap : NameMap (ProxyProvider (Proxy σ))) (ps : List (Proxy σ))
    (list : List (ProxyProvider (Proxy σ))) (group : Proxy σ) : Prop where
  complete : Complete mapping
  finds : Finds proxyMap (mapping.decode true).1.proxies ps
  uses : Uses providersMap (mapping.decode true).1.use list
  own : OwnAllowed (mapping.decode true).1 (providersMap (mapping.decode true).1.name = none)
  group : newGroup mapping.config (mapping.decode true).1
    (ownProviders (mapping.decode true).1 ps ++ list) = .ok group

/-- The providers are looked up in the map as the group has left it, but a group that adds
to the map looks up none. -/
theorem uses_register : Uses (register option ps providersMap) option.use list ↔
    Uses providersMap option.use list := by
  rw [register]
  split
  · rename_i h
    rw [h.2, Uses, Uses, List.forall₂_nil_left_iff, List.forall₂_nil_left_iff]
  · rfl

theorem parseProxyGroup_eq_ok :
    parseProxyGroup mapping proxyMap providersMap = .ok (group, providersMap') ↔
      ∃ ps list, Makes mapping proxyMap providersMap ps list group ∧
        providersMap' = register (mapping.decode true).1 ps providersMap := by
  dsimp only [parseProxyGroup]
  constructor
  · intro h
    split at h
    · cases h
    rename_i hreturns
    split at h
    · cases h
    rename_i hdecodes
    split at h
    · cases h
    rename_i hnamed
    split at h
    · cases h
    rename_i hmembers
    obtain ⟨⟨own, providersMap₁⟩, hown, h⟩ := bind_eq_ok.mp h
    obtain ⟨list, hlist, h⟩ := bind_eq_ok.mp h
    obtain ⟨g, hg, h⟩ := bind_eq_ok.mp h
    cases h
    obtain ⟨ps, hfinds, hallowed, rfl, rfl⟩ := parseProxyList_eq_ok.mp hown
    rw [Option.not_isSome_iff_eq_none] at hdecodes
    rw [not_or] at hnamed
    refine ⟨ps, list, ⟨⟨not_not.mp hreturns, hdecodes, hnamed.1, hnamed.2, hmembers⟩, hfinds, ?_,
      hallowed, hg⟩, rfl⟩
    exact uses_register.mp (parseUse_eq_ok.mp hlist)
  · rintro ⟨ps, list, ⟨hcomplete, hfinds, huses, hallowed, hgroup⟩, rfl⟩
    have hnamed : ¬ ((mapping.decode true).1.type = [] ∨ (mapping.decode true).1.name = []) :=
      not_or.mpr ⟨hcomplete.type, hcomplete.name⟩
    rw [if_neg (not_not_intro hcomplete.returns), if_neg (by rw [hcomplete.decodes]; simp),
      if_neg hnamed, if_neg hcomplete.members]
    refine bind_eq_ok.mpr ⟨_, parseProxyList_eq_ok.mpr ⟨ps, hfinds, hallowed, rfl, rfl⟩, ?_⟩
    refine bind_eq_ok.mpr ⟨list, parseUse_eq_ok.mpr (uses_register.mpr huses), ?_⟩
    exact bind_eq_ok.mpr ⟨group, hgroup, rfl⟩

theorem exists_finds_iff {names : List Str} :
    (∃ ps, Finds proxyMap names ps) ↔ ∀ name ∈ names, (proxyMap name).isSome := by
  simp only [← getProxies_eq_ok, getProxies, exists_mapM_eq_ok, getProxy_eq_ok,
    Option.isSome_iff_exists]

theorem exists_uses_iff {names : List Str} :
    (∃ list, Uses providersMap names list) ↔
      ∀ name ∈ names, ∃ pd, providersMap name = some pd ∧ pd.vehicleType ≠ .compatible := by
  simp only [Uses, ← getProvider_eq_ok, ← mapM_eq_ok, exists_mapM_eq_ok]

def NoneEmpty (providersMap : NameMap (ProxyProvider (Proxy σ))) : Prop :=
  ∀ name pd, providersMap name = some pd → pd.proxies ≠ []

/-- The first provider of a group has a proxy, be it its own or one that it uses. -/
theorem hasFirst_append (hcomplete : Complete mapping)
    (hfinds : Finds proxyMap (mapping.decode true).1.proxies ps)
    (huses : Uses providersMap (mapping.decode true).1.use list) (hne : NoneEmpty providersMap) :
    HasFirst (ownProviders (mapping.decode true).1 ps ++ list) := by
  rw [ownProviders]
  split
  · rename_i hproxies
    have huse : (mapping.decode true).1.use ≠ [] := fun huse => hcomplete.members ⟨hproxies, huse⟩
    rw [Uses] at huses
    obtain ⟨u, use, heq⟩ := List.exists_cons_of_ne_nil huse
    rw [heq] at huses
    obtain ⟨pd, rest, hpd, -, rfl⟩ := List.forall₂_cons_left_iff.mp huses
    exact ⟨pd, rest, rfl, hne u pd hpd.1⟩
  · rename_i hproxies
    exact ⟨_, list, rfl, hfinds.ne_nil hproxies⟩

/-- A group that may be in a configuration with these names of proxies and of providers. -/
structure Accepts (known provided : Str → Prop) (mapping : GroupMapping env) : Prop where
  complete : Complete mapping
  proxies : ∀ name ∈ (mapping.decode true).1.proxies, known name
  use : ∀ name ∈ (mapping.decode true).1.use, provided name
  own : OwnAllowed (mapping.decode true).1 (¬ provided (mapping.decode true).1.name)
  type : KnownType mapping.config (mapping.decode true).1

/-- The providers in the map that do not belong to a group are those with these names. -/
structure Provides (providersMap : NameMap (ProxyProvider (Proxy σ))) (provided : Str → Prop) :
    Prop where
  iff : ∀ name, provided name ↔
    ∃ pd, providersMap name = some pd ∧ pd.vehicleType ≠ .compatible
  noneEmpty : NoneEmpty providersMap

theorem exists_parseProxyGroup_iff {provided : Str → Prop} (hprovides : Provides providersMap provided)
    (hfree : providersMap (mapping.decode true).1.name = none ↔
      ¬ provided (mapping.decode true).1.name) :
    (∃ r, parseProxyGroup mapping proxyMap providersMap = .ok r) ↔
      Accepts (fun name => (proxyMap name).isSome) provided mapping := by
  constructor
  · rintro ⟨⟨group, providersMap'⟩, h⟩
    obtain ⟨ps, list, hmakes, -⟩ := parseProxyGroup_eq_ok.mp h
    have hfirst := hasFirst_append hmakes.complete hmakes.finds hmakes.uses hprovides.noneEmpty
    refine ⟨hmakes.complete, exists_finds_iff.mp ⟨ps, hmakes.finds⟩, ?_, ?_, ?_⟩
    · intro name hname
      exact (hprovides.iff name).mpr (exists_uses_iff.mp ⟨list, hmakes.uses⟩ name hname)
    · rw [← hfree]
      exact hmakes.own
    · exact (newGroup_of_hasFirst _ _ hfirst).1.mp ⟨group, hmakes.group⟩
  · intro h
    obtain ⟨ps, hfinds⟩ := exists_finds_iff.mpr h.proxies
    obtain ⟨list, huses⟩ := exists_uses_iff.mpr
      fun name hname => (hprovides.iff name).mp (h.use name hname)
    have hfirst := hasFirst_append h.complete hfinds huses hprovides.noneEmpty
    obtain ⟨group, hgroup⟩ := (newGroup_of_hasFirst mapping.config _ hfirst).1.mpr h.type
    have hown := h.own
    rw [← hfree] at hown
    exact ⟨_, parseProxyGroup_eq_ok.mpr ⟨ps, list, ⟨h.complete, hfinds, huses, hown, hgroup⟩, rfl⟩⟩

theorem newOwn_ne_panic {hc : HealthCheck} : newOwn option ps hc ≠ .error .panic := by
  cases ps <;> simp [newOwn, newCompatibleProvider, Except.mapError]

theorem parseProxyList_ne_panic :
    parseProxyList option proxyMap providersMap ≠ .error .panic := by
  intro h
  have hbind : ∀ {ps : List (Proxy σ)} {hc : HealthCheck}
      {f : ProxyProvider (Proxy σ) → NameMap (ProxyProvider (Proxy σ))},
      (newOwn option ps hc >>= fun pd => .ok ([pd], f pd)) ≠ .error .panic := by
    intro ps hc f h
    obtain h | ⟨pd, -, h⟩ := bind_eq_error.mp h
    · exact newOwn_ne_panic h
    · cases h
  unfold parseProxyList at h
  split at h
  · cases h
  obtain h | ⟨ps, -, h⟩ := bind_eq_error.mp h
  · obtain ⟨name, -, h⟩ := exists_of_mapM_eq_error h
    unfold getProxy at h
    split at h <;> cases h
  · split at h
    · exact hbind h
    split at h
    · cases h
    split at h
    · exact hbind h
    split at h
    · cases h
    · exact hbind h

theorem parseUse_ne_panic : parseUse option providersMap ≠ .error .panic := by
  intro h
  unfold parseUse at h
  split at h
  · cases h
  · obtain ⟨name, -, h⟩ := exists_of_mapM_eq_error h
    unfold getProvider at h
    split at h
    · cases h
    · split at h <;> cases h

theorem parseProxyGroup_ne_panic (hreturns : mapping.Returns true) (proxyMap : NameMap (Proxy σ))
    (hne : NoneEmpty providersMap) :
    parseProxyGroup mapping proxyMap providersMap ≠ .error .panic := by
  intro h
  dsimp only [parseProxyGroup] at h
  rw [if_neg (not_not_intro hreturns)] at h
  split at h
  · cases h
  rename_i hdecodes
  split at h
  · cases h
  rename_i hnamed
  split at h
  · cases h
  rename_i hmembers
  obtain h | ⟨⟨own, providersMap₁⟩, hown, h⟩ := bind_eq_error.mp h
  · exact parseProxyList_ne_panic h
  obtain h | ⟨list, hlist, h⟩ := bind_eq_error.mp h
  · exact parseUse_ne_panic h
  obtain h | ⟨g, -, h⟩ := bind_eq_error.mp h
  · obtain ⟨ps, hfinds, -, rfl, rfl⟩ := parseProxyList_eq_ok.mp hown
    rw [not_or] at hnamed
    have hcomplete : Complete mapping :=
      ⟨hreturns, Option.not_isSome_iff_eq_none.mp hdecodes, hnamed.1, hnamed.2, hmembers⟩
    have huses := uses_register.mp (parseUse_eq_ok.mp hlist)
    exact (newGroup_of_hasFirst _ _ (hasFirst_append hcomplete hfinds huses hne)).2 h
  · cases h

end Accepted

end RuleBaseProxy.OutboundGroup.Parser
