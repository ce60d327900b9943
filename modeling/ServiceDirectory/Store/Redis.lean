import ServiceDirectory.Failure
import ServiceDirectory.Number.Literal

/-! Addresses of Redis servers, and the keys under which instances are kept there. -/
namespace ServiceDirectory.Redis

structure RedisStore where
  url : String
  keyStart : String
  deriving DecidableEq, Repr

def RedisStore.instanceKey (s : RedisStore) (id : String) : String :=
  s.keyStart ++ "instances:" ++ id

def isLetter (c : Char) : Bool := ('a' ≤ c && c ≤ 'z') || ('A' ≤ c && c ≤ 'Z')

def isSchemeChar (c : Char) : Bool :=
  isLetter c || Number.isDigit c || c == '+' || c == '-' || c == '.'

def trimmed (s : String) : List Char :=
  let outer (c : Char) : Bool := c.toNat ≤ 0x20
  let cs := ((s.toList.dropWhile outer).reverse.dropWhile outer).reverse
  cs.filter fun c => !(c == '\t' || c == '\n' || c == '\r')

def splitScheme? (cs : List Char) : Option (String × List Char) :=
  match cs with
  | [] => none
  | c :: _ =>
    if !isLetter c then none
    else match cs.dropWhile isSchemeChar with
      | ':' :: rest => some (String.ofList ((cs.takeWhile isSchemeChar).map Char.toLower), rest)
      | _ => none

def forbidden (c : Char) : Bool := c.toNat ≤ 0x20 || "#/:<>?@[\\]^|".toList.contains c

def splitAtLast (mark : Char) (cs : List Char) : Option (List Char × List Char) :=
  let backwards := cs.reverse
  match backwards.dropWhile (· != mark) with
  | [] => none
  | _ :: before => some (before.reverse, (backwards.takeWhile (· != mark)).reverse)

def portFits (cs : List Char) : Bool :=
  cs.isEmpty || ((Number.readNatural? cs).filter (· ≤ 65535)).isSome

def isAddressChar (c : Char) : Bool :=
  Number.isDigit c || c == ':' || c == '.' || (('a' ≤ c.toLower) && (c.toLower ≤ 'f'))

def readHost? (cs : List Char) : Option (List Char) :=
  match cs with
  | '[' :: rest =>
    let inside := rest.takeWhile (· != ']')
    let good := inside.all isAddressChar && inside.contains ':'
    match rest.dropWhile (· != ']') with
    | [']'] => if good then some inside else none
    | ']' :: ':' :: port => if good && portFits port then some inside else none
    | _ => none
  | _ =>
    let (host, port) := match splitAtLast ':' cs with
      | some parts => parts
      | none => (cs, [])
    if host.any forbidden || !portFits port || (host.isEmpty && !port.isEmpty) then none
    else some host

def databaseFits (cs : List Char) : Bool :=
  let slash (c : Char) : Bool := c == '/'
  let inner := ((cs.dropWhile slash).reverse.dropWhile slash).reverse
  inner.isEmpty || (Number.readSigned64? inner).isSome

def serverTrouble? (cs : List Char) : Option String :=
  let boundary (c : Char) : Bool := c == '/' || c == '?' || c == '#'
  let authority := cs.takeWhile fun c => !boundary c
  let path := (cs.dropWhile fun c => !boundary c).takeWhile fun c => !(c == '?' || c == '#')
  let host := match splitAtLast '@' authority with
    | some (_, host) => host
    | none => authority
  match readHost? host with
  | none => some "Redis URL did not parse"
  | some [] => some "Missing hostname"
  | some _ => if databaseFits path then none else some "Invalid database number"

def addressTrouble? (url : String) : Option String :=
  match splitScheme? (trimmed url) with
  | none => some "Redis URL did not parse"
  | some (scheme, rest) =>
    if scheme == "redis" || scheme == "valkey" then
      match rest with
      | '/' :: '/' :: rest => serverTrouble? rest
      | _ => some "Missing hostname"
    else if scheme == "rediss" || scheme == "valkeys" then
      some "can't connect with TLS, the feature is not enabled"
    else if scheme == "redis+unix" || scheme == "valkey+unix" || scheme == "unix" then
      match rest with
      | '/' :: '/' :: '/' :: _ => none
      | _ => some "Missing path"
    else some "Redis URL did not parse"

def RedisStore.at_ (url keyStart : String) : Except Failure RedisStore :=
  match addressTrouble? url with
  | none => .ok ⟨url, keyStart⟩
  | some trouble =>
    .error ⟨.configuration, "Invalid Redis URL: " ++ trouble ++ "- InvalidClientConfig"⟩

end ServiceDirectory.Redis
