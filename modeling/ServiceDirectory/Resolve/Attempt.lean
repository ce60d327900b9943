import ServiceDirectory.Directory.Registry
import ServiceDirectory.Filter
import ServiceDirectory.Resolve.Balance
import ServiceDirectory.Resolve.Cache

/-! One attempt to resolve a service, cut at every place where it touches something shared. -/
namespace ServiceDirectory.Resolve

structure Query where
  service : String
  strategy : Strategy
  filters : List Filter
  useCache : Bool

inductive Stage where
  | lookup
  | fetch (revision : Nat)
  | pickCached (candidates : List Instance)
  /-- Read the revision before the list, so that an entry is never newer than its list. -/
  | snapshot
  | list (revision : Nat)
  | choose (revision : Nat) (live : List Instance)
  | keep (revision : Nat) (live : List Instance) (pick : Instance)
  deriving DecidableEq, Repr

inductive Progress where
  | next (stage : Stage)
  | ended (result : Except Failure Instance)

structure Shared where
  cache : Option Cache
  cursor : Cursor

def noInstances (service : String) : Failure := ⟨.noAvailableInstances, service⟩

namespace Query

def candidates (q : Query) (live : List Instance) : List Instance := Filter.keep q.filters live

def cache? (q : Query) (s : Shared) : Option Cache := if q.useCache then s.cache else none

def lookup (q : Query) (r : Registry) (s : Shared) : Progress :=
  match q.cache? s with
  | some _ => .next (.fetch (r.revision q.service))
  | none => .next .snapshot

def useful (q : Query) : Option Content → Progress
  | some (.selected i) =>
    if Filter.passesAll q.filters i then .ended (.ok i) else .next .snapshot
  | some (.candidates live) =>
    if (q.candidates live).isEmpty then .next .snapshot
    else .next (.pickCached (q.candidates live))
  | none => .next .snapshot

def fetch (q : Query) (revision now : Nat) (s : Shared) : Progress × Shared :=
  match q.cache? s with
  | some cache =>
    let (content, cache) := cache.get q.service q.strategy.name revision now
    (q.useful content, { s with cache := some cache })
  | none => (.next .snapshot, s)

def pick (q : Query) (draw : Draw) (s : Shared) (candidates : List Instance) :
    Except Failure Instance × Shared :=
  let (result, cursor) := q.strategy.select draw s.cursor candidates
  (result, { s with cursor })

def content? (q : Query) (live : List Instance) (pick : Instance) : Option Content :=
  if !q.strategy.sticky then some (.candidates live)
  else if q.filters.isEmpty then some (.selected pick)
  else none

def keep (q : Query) (revision now : Nat) (live : List Instance) (pick : Instance) (s : Shared) :
    Shared :=
  match q.cache? s, q.content? live pick with
  | some cache, some content =>
    { s with cache := some (cache.insert q.service q.strategy.name revision content now) }
  | _, _ => s

def advance (q : Query) (r : Registry) (now : Nat) (draw : Draw) (s : Shared) :
    Stage → Progress × Shared
  | .lookup => (q.lookup r s, s)
  | .fetch revision => q.fetch revision now s
  | .pickCached candidates =>
    let (result, s) := q.pick draw s candidates
    (.ended result, s)
  | .snapshot => (.next (.list (r.revision q.service)), s)
  | .list revision =>
    let live := r.list q.service false
    if (q.candidates live).isEmpty then (.ended (.error (noInstances q.service)), s)
    else (.next (.choose revision live), s)
  | .choose revision live =>
    match q.pick draw s (q.candidates live) with
    | (.error e, s) => (.ended (.error e), s)
    | (.ok pick, s) => (.next (.keep revision live pick), s)
  | .keep revision live pick => (.ended (.ok pick), q.keep revision now live pick s)

def longest : Nat := 6

def runFrom (q : Query) (r : Registry) (now : Nat) (draw : Draw) :
    Nat → Stage → Shared → Except Failure Instance × Shared
  | 0, _, s => (.error (noInstances q.service), s)
  | fuel + 1, stage, s =>
    match q.advance r now draw s stage with
    | (.ended result, s) => (result, s)
    | (.next stage, s) => q.runFrom r now draw fuel stage s

def attempt (q : Query) (r : Registry) (now : Nat) (draw : Draw) (s : Shared) :
    Except Failure Instance × Shared :=
  q.runFrom r now draw longest .lookup s

end Query
end ServiceDirectory.Resolve
