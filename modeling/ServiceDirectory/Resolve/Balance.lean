import ServiceDirectory.Failure
import ServiceDirectory.Instance
import ServiceDirectory.Number.Bounds

/-! Strategies that pick one of several candidates, and the table of their names. -/
namespace ServiceDirectory.Resolve

abbrev Rule := List Instance → Except Failure Instance

inductive Strategy where
  | roundRobin
  | weightedRandom
  | random
  | first
  | caller (name : String) (sticky : Bool) (rule : Rule)

abbrev Draw := Nat → Nat

def Draw.below (draw : Draw) (bound : Nat) : Nat := draw bound % bound

def noCandidates : Failure := ⟨.noAvailableInstances, "empty candidate list"⟩

def lastRule : Rule := fun candidates =>
  match candidates.getLast? with
  | some i => .ok i
  | none => .error ⟨.noAvailableInstances, "nothing is last"⟩

namespace Strategy

def name : Strategy → String
  | .roundRobin => "round_robin"
  | .weightedRandom => "weighted_random"
  | .random => "random"
  | .first => "first"
  | .caller name _ _ => name

def sticky : Strategy → Bool
  | .first => true
  | .caller _ sticky _ => sticky
  | _ => false

end Strategy

def pickAt (offset : Nat) : List Instance → Option Instance
  | [] => none
  | c :: rest => if offset < c.weight then some c else pickAt (offset - c.weight) rest

def totalWeight (candidates : List Instance) : Nat :=
  candidates.foldr (fun i sum => i.weight + sum) 0

def lowestId : List Instance → Option Instance
  | [] => none
  | c :: rest =>
    match lowestId rest with
    | none => some c
    | some best => if best.id < c.id then some best else some c

def found : Option Instance → Except Failure Instance
  | some i => .ok i
  | none => .error noCandidates

structure Cursor where
  turn : Nat
  deriving DecidableEq, Repr

def Cursor.next (c : Cursor) : Cursor := ⟨(c.turn + 1) % (Number.largest64 + 1)⟩

/-- Picks one of the candidates. Only round robin moves the cursor, and not for want of candidates;
weights of zero are passed over unless there are no others. -/
def Strategy.select (s : Strategy) (draw : Draw) (cursor : Cursor) (candidates : List Instance) :
    Except Failure Instance × Cursor :=
  match s with
  | .roundRobin =>
    if candidates.isEmpty then (.error noCandidates, cursor)
    else (found candidates[cursor.turn % candidates.length]?, cursor.next)
  | .weightedRandom =>
    let total := totalWeight candidates
    (found (if total == 0 then candidates[draw.below candidates.length]?
      else pickAt (draw.below total) candidates), cursor)
  | .random => (found candidates[draw.below candidates.length]?, cursor)
  | .first => (found (lowestId candidates), cursor)
  | .caller _ _ rule => (rule candidates, cursor)

structure Balancer where
  strategies : Table Strategy
  cursor : Cursor

namespace Balancer

def register (b : Balancer) (s : Strategy) : Balancer :=
  { b with strategies := b.strategies.put s.name s }

def standard : List Strategy := [.roundRobin, .weightedRandom, .random, .first]

def new : Balancer := standard.foldl register ⟨[], ⟨0⟩⟩

def strategy (b : Balancer) (name : String) : Except Failure Strategy :=
  match b.strategies.get? name with
  | some s => .ok s
  | none => .error ⟨.invalid, "unknown load balancing strategy: " ++ name⟩

def names (b : Balancer) : List String := sortedDistinct b.strategies.keys

def select (b : Balancer) (name : String) (draw : Draw) (candidates : List Instance) :
    Except Failure Instance × Balancer :=
  match b.strategy name with
  | .error e => (.error e, b)
  | .ok s =>
    let (result, cursor) := s.select draw b.cursor candidates
    (result, { b with cursor })

end Balancer
end ServiceDirectory.Resolve
