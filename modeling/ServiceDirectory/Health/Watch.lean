import ServiceDirectory.Health.CheckLoop

/-! A check loop on its own, over time: who can end it, and what it has done. -/
namespace ServiceDirectory.Health

structure SoloLoop where
  now : Nat
  settings : LoopSettings
  script : Script
  loop : Option CheckLoop
  cancelled : Bool
  listening : Bool
  probes : Nat
  sent : List Report
  deriving Repr

namespace SoloLoop

def begin (settings : LoopSettings) (script : Script) (i : Instance) (epoch : Nat) : SoloLoop :=
  ⟨0, settings, script, some (.ofInstance i epoch 0), false, true, 0, []⟩

def finished (s : SoloLoop) : Bool := s.loop.isNone

def cancel (s : SoloLoop) : SoloLoop := { s with cancelled := true }

def closeReports (s : SoloLoop) : SoloLoop := { s with listening := false, sent := [] }

def collect (s : SoloLoop) : List Report × SoloLoop := (s.sent, { s with sent := [] })

def act (s : SoloLoop) : Option SoloLoop :=
  match s.loop with
  | none => none
  | some l =>
    if s.cancelled || s.settings.interval == 0 then some { s with loop := none }
    else match l.endProbe s.settings s.now (.ofMillis s.now) with
      | some (l, reports) =>
        if s.listening then some { s with loop := some l, sent := s.sent ++ reports }
        else some { s with loop := if reports.isEmpty then some l else none }
      | none =>
        let (o, script) := s.script.draw
        match l.beginProbe s.settings o s.now with
        | some l => some { s with loop := some l, script, probes := s.probes + 1 }
        | none => none

def settle : Nat → SoloLoop → SoloLoop
  | 0, s => s
  | fuel + 1, s => match s.act with
    | some s => settle fuel s
    | none => s

def actsPerInstant : Nat := 2 * tickSlack + 8

def passTo (target : Nat) : Nat → SoloLoop → SoloLoop
  | 0, s => { s with now := target }
  | fuel + 1, s =>
    match s.loop with
    | none => { s with now := target }
    | some l =>
      if l.wakes ≤ target then
        passTo target fuel ({ s with now := max s.now l.wakes }.settle actsPerInstant)
      else { s with now := target }

/-- Every act at an instant is a tick or an end of a probe, so twice the time bounds the wakes. -/
def advance (ms : Nat) (s : SoloLoop) : SoloLoop :=
  passTo (s.now + ms) (2 * ms + 4) (s.settle actsPerInstant)

end SoloLoop
end ServiceDirectory.Health
