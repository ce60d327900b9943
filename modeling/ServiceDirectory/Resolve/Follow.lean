import ServiceDirectory.EventBus
import ServiceDirectory.Resolve.Cache

/-! A cache whose entries go when an event bus tells of a change to their service. -/
namespace ServiceDirectory.Resolve

structure FollowedCache where
  cache : Cache
  bus : EventBus
  followers : List Nat
  now : Nat
  deriving DecidableEq, Repr

namespace FollowedCache

def new (cache : Cache) (capacity : Nat) : FollowedCache := ⟨cache, .empty capacity, [], 0⟩

def follow (f : FollowedCache) (service : Option String) : FollowedCache :=
  let (bus, id) := f.bus.subscribe service
  { f with bus, followers := f.followers ++ [id] }

def unfollow (f : FollowedCache) : FollowedCache :=
  { f with bus := f.followers.foldl EventBus.close f.bus, followers := [] }

def followNext (f : FollowedCache) (watcher : Nat) : FollowedCache :=
  match f.bus.take watcher with
  | (some event, bus) => { f with bus, cache := f.cache.invalidate event.service }
  | (none, bus) => { f with bus }

def publish (f : FollowedCache) (e : Event) : FollowedCache :=
  let f := { f with bus := f.bus.publish e }
  f.followers.foldl followNext f

def get (f : FollowedCache) (service strategy : String) (revision : Nat) :
    Option Content × FollowedCache :=
  let (content, cache) := f.cache.get service strategy revision f.now
  (content, { f with cache })

def insert (f : FollowedCache) (service strategy : String) (revision : Nat) (content : Content) :
    FollowedCache :=
  { f with cache := f.cache.insert service strategy revision content f.now }

def invalidate (f : FollowedCache) (service : String) : FollowedCache :=
  { f with cache := f.cache.invalidate service }

def clear (f : FollowedCache) : FollowedCache := { f with cache := f.cache.clear f.now }

def advance (f : FollowedCache) (ms : Nat) : FollowedCache := { f with now := f.now + ms }

end FollowedCache
end ServiceDirectory.Resolve
