import RuleBaseProxy.Component.TrieLookup
import RuleBaseProxy.Lib.HostPort
import RuleBaseProxy.Tunnel.Match

/-! # The hosts of a configuration

`parseHosts` fills a trie from the `hosts` section. The code that looks names up
there takes the data for a list of addresses, without a check.
-/

namespace RuleBaseProxy.Config

open Go Go.Net Trie WildcardPath

/-- The items of a list of addresses, blank ones left out. -/
def items (ipStr : Str) : List Str := ((split ipStr 44).map trimSpace).filter (· ≠ [])

/-- The addresses of one entry; `none` is the error for a text that is no address. -/
def parseIPList (ipStr : Str) : Option (List (Option IP)) :=
  if contains ipStr (str ",") then some ((items ipStr).map parseIP)
  else (parseIP (trimSpace ipStr)).map fun ip => [some ip]

def localhost : Str × HostData := (str "localhost", .ip ⟨[127, 0, 0, 1], Or.inl rfl⟩)

/-- The body of the loop. -/
def insertHost (tree : DomainTrie HostData) (entry : Str × Str) : Option (DomainTrie HostData) :=
  (parseIPList entry.2).map fun ipList => (tree.insert entry.1 (.ips ipList)).getD tree

/-- `parseHosts`, on the entries in the order in which the map is iterated. -/
def parseHosts (hosts : List (Str × Str)) : Option (DomainTrie HostData) :=
  hosts.foldlM insertHost ((DomainTrie.new.insert localhost.1 localhost.2).getD .new)

/-- A list of addresses that `match`, `preHandleMetadata`, `withHosts` and the
functions of `resolver` can take as it is. -/
def UsableHost : HostData → Prop
  | .ip _ => False
  | .ips ips => ips ≠ [] ∧ none ∉ ips

/-- `match` gets past its hosts lookup when the data it finds is usable. -/
theorem isSome_applyHosts {t : Tunnel} {m : Metadata}
    (h : ∀ x, t.hosts.search m.host = some x → UsableHost x) : (t.applyHosts m).isSome := by
  unfold Tunnel.applyHosts
  cases hsearch : t.hosts.search m.host with
  | none => rfl
  | some x =>
      have husable := h x hsearch
      cases x with
      | ip ip => exact husable.elim
      | ips ips =>
          cases ips with
          | nil => exact absurd rfl husable.1
          | cons ip ips =>
              simp only
              split <;> rfl

/-- A list with an item, and addresses only. A text without comma is no list. -/
def WellListed (ipStr : Str) : Prop :=
  contains ipStr (str ",") → items ipStr ≠ [] ∧ ∀ item ∈ items ipStr, (parseIP item).isSome

/-! ## The trie of the hosts -/

variable {hosts : List (Str × Str)} {d : Str}

def hostData (ipStr : Str) : HostData := .ips ((parseIPList ipStr).getD [])

theorem usable_hostData_iff {ipStr : Str} (h : (parseIPList ipStr).isSome) :
    UsableHost (hostData ipStr) ↔ WellListed ipStr := by
  obtain ⟨ips, hips⟩ := Option.isSome_iff_exists.mp h
  unfold UsableHost hostData WellListed
  simp only [hips, Option.getD_some]
  unfold parseIPList at hips
  split at hips
  · rename_i hcomma
    cases hips
    simp [hcomma, Option.isSome_iff_ne_none]
  · rename_i hcomma
    obtain ⟨ip, -, rfl⟩ := Option.map_eq_some_iff.mp hips
    simp [hcomma]

theorem foldlM_insertHost (t : DomainTrie HostData) :
    hosts.foldlM insertHost t =
      if ∀ e ∈ hosts, (parseIPList e.2).isSome then
        some (t.insertAll (hosts.map fun e => (e.1, hostData e.2)))
      else none := by
  induction hosts generalizing t with
  | nil => simp [DomainTrie.insertAll]
  | cons e hosts ih =>
      rw [List.foldlM_cons]
      cases hips : parseIPList e.2 with
      | none => simp [insertHost, hips]
      | some ips =>
          have hdata : hostData e.2 = .ips ips := by simp [hostData, hips]
          have hall : (∀ x ∈ e :: hosts, (parseIPList x.2).isSome) ↔
              ∀ x ∈ hosts, (parseIPList x.2).isSome := by
            simp [hips]
          simp only [hall]
          simp [insertHost, hips, ih, hdata, DomainTrie.insertAll]

/-- The entries as they are written into the trie, the built-in one first. -/
def writes (hosts : List (Str × Str)) : List (Str × HostData) :=
  localhost :: hosts.map fun e => (e.1, hostData e.2)

theorem parseHosts_eq (hosts : List (Str × Str)) :
    parseHosts hosts =
      if ∀ e ∈ hosts, (parseIPList e.2).isSome then some (DomainTrie.new.insertAll (writes hosts))
      else none := by
  rw [parseHosts, foldlM_insertHost]
  rfl

theorem lastData_writes (hosts : List (Str × Str)) (k : List Str) :
    lastData (writes hosts) k =
      ((lastData hosts k).map hostData).or
        (if k = [str "localhost"] then some localhost.2 else none) := by
  induction hosts using List.reverseRecOn with
  | nil =>
      have hexpand : expand (str "localhost") = [[str "localhost"]] := by decide +kernel
      have hwrites : writes [] = [] ++ [localhost] := rfl
      rw [hwrites, lastData_concat]
      simp [localhost, hexpand, lastData]
  | append_singleton hosts e ih =>
      have hwrites : writes (hosts ++ [e]) = writes hosts ++ [(e.1, hostData e.2)] := by
        simp [writes]
      rw [hwrites, lastData_concat, lastData_concat, ih]
      by_cases h : k ∈ expand e.1
      · simp [h]
      · simp [h]

/-! ## What a lookup yields -/

/-- The entry that answers for the path: the one written last must be well listed,
and the built-in one must not be left. -/
def Answered (hosts : List (Str × Str)) (k : List Str) : Prop :=
  match lastData hosts k with
  | some ipStr => WellListed ipStr
  | none => k ≠ [str "localhost"]

theorem usable_iff_answered (h : ∀ e ∈ hosts, (parseIPList e.2).isSome) (k : List Str) :
    (∀ x, lastData (writes hosts) k = some x → UsableHost x) ↔ Answered hosts k := by
  rw [lastData_writes]
  unfold Answered
  cases hlast : lastData hosts k with
  | some ipStr =>
      obtain ⟨e, he, -, rfl⟩ := lastData_mem hlast
      simp [usable_hostData_iff (h e he)]
  | none =>
      by_cases hk : k = [str "localhost"]
      · simp [hk, localhost, UsableHost]
      · simp [hk]

/-- For a configuration that is accepted, what a lookup of `d` yields is usable
exactly if the entry that answers is. -/
theorem usable_search_iff (hosts : List (Str × Str)) (d : Str) :
    (∀ tree, parseHosts hosts = some tree → ∀ x, tree.search d = some x → UsableHost x) ↔
      ((parseHosts hosts).isSome → ∀ ls k, labels d = some ls →
        Selected (writes hosts) ls k → Answered hosts k) := by
  rw [parseHosts_eq]
  split
  · rename_i haccepted
    simp only [Option.some.injEq, forall_eq', Option.isSome_some, forall_true_left]
    constructor
    · intro h ls k hd hk
      rw [← usable_iff_answered haccepted]
      intro x hx
      exact h x ((search_of_selected hd hk).trans hx)
    · intro h x hx
      obtain ⟨ls, k, hd, hk, hdata⟩ := exists_selected_of_search hx
      exact (usable_iff_answered haccepted k).mpr (h ls k hd hk) x hdata
  · simp

/-- Without any entry a lookup of `localhost` yields a bare address. -/
theorem localhost_not_usable :
    ¬ ∀ (hosts : List (Str × Str)) (tree : DomainTrie HostData), parseHosts hosts = some tree →
      ∀ d x, tree.search d = some x → UsableHost x := by
  intro h
  exact h [] _ rfl (str "localhost") localhost.2 rfl

end RuleBaseProxy.Config
