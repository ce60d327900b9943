import ServiceDirectory.Directory.Registry

/-! Calls to the directory, cut at the places where others may come in between: wherever a lock is
taken or let go, and wherever a call waits for the store or for a check loop to end. A registration
is admitting, saving and entering; a removal quieting, deleting and leaving; a sweep collecting and
hushing, then purging, releasing and expiring for each instance it took; a shutdown draining,
stilling and joining. Who is announcing or expiring holds the order of publication. -/
namespace ServiceDirectory

inductive Request where
  | register (i : Instance)
  | deregister (id : String)
  | heartbeat (id : String)
  | sweep
  | bootstrap
  | start
  | shutdown
  deriving DecidableEq, Repr

inductive Answer where
  | instance (i : Instance)
  | done
  | count (n : Nat)
  | broken
  deriving DecidableEq, Repr

inductive Notice where
  | plain (kind : EventKind) (snapshot : Instance)
  | stamped (event : Event)
  deriving DecidableEq, Repr

def Notice.event (now : Timestamp) : Notice → Event
  | .plain kind snapshot => .plain kind snapshot now
  | .stamped event => event

structure Round where
  current : Instance
  rest : List Instance
  total : Nat
  deriving DecidableEq, Repr

inductive Call where
  | admitting (i : Instance)
  | saving (i : Instance)
  | entering (i : Instance)
  | quieting (id : String) (loop : Option Nat)
  | deleting (id : String)
  | leaving (id : String)
  | collecting (at_ : Timestamp)
  | hushing (loops : List Nat) (round : Round)
  | purging (round : Round)
  | releasing (round : Round)
  | expiring (round : Round)
  | listing
  | loading (stored : List Instance) (at_ : Timestamp)
  | announcing (notices : List Notice) (answer : Answer)
  | launching
  | draining
  | stilling (loops : List Nat)
  | joining (waits : Bool)
  deriving DecidableEq, Repr

abbrev CallId := Nat

namespace Call

inductive StoreWork where
  | save (i : Instance)
  | delete (id : String)
  | list
  deriving DecidableEq, Repr

def storeWork? : Call → Option StoreWork
  | .saving i => some (.save i)
  | .deleting id => some (.delete id)
  | .purging round => some (.delete round.current.id)
  | .listing => some .list
  | _ => none

def announces : Call → Bool
  | .announcing _ _ => true
  | .expiring _ => true
  | _ => false

/-- A change of status that was applied and is still being told. -/
def reports : Call → Bool
  | .announcing _ .done => true
  | _ => false

def abandonable : Call → Bool
  | .saving _ => true
  | .quieting _ _ => true
  | .deleting _ => true
  | .hushing _ _ => true
  | .purging _ => true
  | .listing => true
  | .stilling _ => true
  | .joining _ => true
  | _ => false

def guarded? : Call → Option String
  | .saving i => some i.id
  | .quieting id _ => some id
  | .deleting id => some id
  | _ => none

end Call
end ServiceDirectory
