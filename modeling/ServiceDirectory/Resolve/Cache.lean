import ServiceDirectory.Instance

/-! The cache of resolutions, one entry for a service and a strategy. An entry is good for the
revision of the service it was made at, and until its time to live is over. -/
namespace ServiceDirectory.Resolve

inductive Content where
  | selected (pick : Instance)
  | candidates (live : List Instance)
  deriving DecidableEq, Repr

structure Entry where
  service : String
  strategy : String
  revision : Nat
  content : Content
  storedAt : Nat
  deriving DecidableEq, Repr

/-- What a clear takes: all entries, or those that were stored at an earlier moment than its own. -/
inductive Clearing where
  | everything
  | earlier
  deriving DecidableEq, Repr

/-- Times are in milliseconds. `cached` lists the strategies stored for a service since its entries
were last dropped together. -/
structure Cache where
  clearing : Clearing
  lifetime : Nat
  capacity : Nat
  entries : List Entry
  cached : Table (List String)
  hits : Nat
  misses : Nat
  invalidations : Nat
  deriving DecidableEq, Repr

namespace Entry

def isFor (e : Entry) (service strategy : String) : Bool :=
  e.service == service && e.strategy == strategy

def alive (lifetime now : Nat) (e : Entry) : Bool := decide (now < e.storedAt + lifetime)

end Entry

def Clearing.leaves (how : Clearing) (now : Nat) (e : Entry) : Bool :=
  match how with
  | .everything => false
  | .earlier => decide (now ≤ e.storedAt)

namespace Cache

def empty (lifetime capacity : Nat) : Cache := ⟨.earlier, lifetime, capacity, [], [], 0, 0, 0⟩

def find? (c : Cache) (service strategy : String) (now : Nat) : Option Entry :=
  c.entries.find? fun e => e.isFor service strategy && e.alive c.lifetime now

def drop (c : Cache) (service strategy : String) : Cache :=
  { c with entries := c.entries.filter fun e => !e.isFor service strategy }

def get (c : Cache) (service strategy : String) (revision now : Nat) : Option Content × Cache :=
  match c.find? service strategy now with
  | some e =>
    if e.revision == revision then (some e.content, { c with hits := c.hits + 1 })
    else (none, { c.drop service strategy with misses := c.misses + 1 })
  | none => (none, { c with misses := c.misses + 1 })

def insert (c : Cache) (service strategy : String) (revision : Nat) (content : Content)
    (now : Nat) : Cache :=
  let others := c.entries.filter fun e => !e.isFor service strategy && e.alive c.lifetime now
  let entries :=
    if others.length < c.capacity then others ++ [⟨service, strategy, revision, content, now⟩]
    else others
  let known := (c.cached.get? service).getD []
  { c with entries,
           cached := c.cached.put service
             (if known.contains strategy then known else known ++ [strategy]) }

def invalidate (c : Cache) (service : String) : Cache :=
  match c.cached.get? service with
  | none => c
  | some strategies =>
    { c with entries := c.entries.filter fun e =>
               !(e.service == service && strategies.contains e.strategy),
             cached := c.cached.remove service,
             invalidations := c.invalidations + 1 }

def clear (c : Cache) (now : Nat) : Cache :=
  { c with entries := c.entries.filter (c.clearing.leaves now), cached := [] }

def evict (c : Cache) (service strategy : String) : Cache := c.drop service strategy

end Cache
end ServiceDirectory.Resolve
