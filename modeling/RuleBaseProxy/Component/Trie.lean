import RuleBaseProxy.Lib.GoString

/-! # The domain trie

Nodes are labelled by the parts of a domain from the right.
-/

namespace RuleBaseProxy.Trie

open Go

/-- `trie.Node`; `none` is a nil `Data`. -/
inductive Node (α : Type u) where
  | mk (data : Option α) (children : List (Str × Node α))

variable {α : Type u}

def Node.data : Node α → Option α
  | .mk data _ => data

def Node.getChild : Node α → Str → Option (Node α)
  | .mk _ children, s => children.lookup s

def wildcard : Str := str "*"
def dotWildcard : Str := []
def complexWildcard : Str := str "+"

structure DomainTrie (α : Type u) where
  root : Node α

def DomainTrie.new : DomainTrie α := ⟨.mk none []⟩

def validAndSplitDomain (domain : Str) : Option (List Str) :=
  if domain ≠ [] ∧ domain.getLast? = some 46 then none
  else
    match split domain 46 with
    | [part] => if part = [] then none else some [part]
    | parts => if (parts.drop 1).any (· = []) then none else some parts

/-- `DomainTrie.search` on the parts read from the right: static part first,
then the wildcard, then the dot wildcard. -/
def Node.search (node : Node α) : List Str → Option (Node α)
  | [] => some node
  | part :: parts =>
      match (node.getChild part).bind (Node.search · parts) with
      | some n => some n
      | none =>
          match (node.getChild wildcard).bind (Node.search · parts) with
          | some n => some n
          | none => node.getChild dotWildcard

/-- `DomainTrie.Search`, its node given by the node's data. -/
def DomainTrie.search (t : DomainTrie α) (domain : Str) : Option α :=
  match validAndSplitDomain domain with
  | none => none
  | some parts =>
      if parts.head? = some [] then none
      else (t.root.search parts.reverse).bind Node.data

def newNode : Node α := .mk none []

def Node.setChild (node : Node α) (s : Str) (child : Node α) : Node α :=
  match node with
  | .mk data children => .mk data ((s, child) :: children.filter (·.1 ≠ s))

/-- `DomainTrie.insert` on the parts read from the right. -/
def Node.insert (data : α) : List Str → Node α → Node α
  | [], .mk _ children => .mk (some data) children
  | part :: parts, node =>
      node.setChild part (((node.getChild part).getD newNode).insert data parts)

/-- `DomainTrie.Insert`; `none` is `ErrInvalidDomain`. A leading `+` stands for the
domain itself and for all below it. -/
def DomainTrie.insert (t : DomainTrie α) (domain : Str) (data : α) : Option (DomainTrie α) :=
  (validAndSplitDomain domain).map fun parts =>
    if parts.head? = some complexWildcard then
      let root := t.root.insert data (parts.drop 1).reverse
      ⟨root.insert data (dotWildcard :: parts.drop 1).reverse⟩
    else ⟨t.root.insert data parts.reverse⟩

/-- Calls of `Insert` one after another, errors ignored. -/
def DomainTrie.insertAll (t : DomainTrie α) (entries : List (Str × α)) : DomainTrie α :=
  entries.foldl (fun t (domain, data) => (t.insert domain data).getD t) t

end RuleBaseProxy.Trie
