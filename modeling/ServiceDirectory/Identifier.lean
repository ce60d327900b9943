import ServiceDirectory.Instance

/-! Ids made up by chance. -/
namespace ServiceDirectory.Identifier

def alphabet : List Char :=
  "_-0123456789abcdefghijklmnopqrstuvwxyzABCDEFGHIJKLMNOPQRSTUVWXYZ".toList

def letters (choices : List Nat) : String :=
  String.ofList (choices.map fun n => alphabet.getD (n % alphabet.length) '_')

def ordinaryLength : Nat := 10

def configuredLength : Nat := 6

def forService (service : String) (choices : List Nat) : String :=
  service ++ "-" ++ letters (choices.take ordinaryLength)

def forConfigured (service host : String) (choices : List Nat) : String :=
  service ++ "-" ++ host ++ "-" ++ letters (choices.take configuredLength)

end ServiceDirectory.Identifier

namespace ServiceDirectory.Instance

def generated (name endpoint : String) (choices : List Nat) (now : Timestamp) : Instance :=
  .fresh (Identifier.forService name choices) name endpoint now

end ServiceDirectory.Instance
