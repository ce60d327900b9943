import ServiceDirectory.Endpoint.Numeric

/-! Where an endpoint can be reached. -/
namespace ServiceDirectory.Endpoint

def afterScheme : List Char → List Char → List Char
  | whole, [] => whole
  | whole, c :: rest =>
    match c, rest with
    | ':', '/' :: '/' :: more => more
    | _, _ => afterScheme whole rest

def authority (endpoint : String) : List Char :=
  let cs := endpoint.toList
  (afterScheme cs cs).takeWhile (· != '/')

def splitLastColon? (cs : List Char) : Option (List Char × List Char) :=
  let backwards := cs.reverse
  let port := (backwards.takeWhile (· != ':')).reverse
  match backwards.dropWhile (· != ':') with
  | [] => none
  | _ :: host => some (host.reverse, port)

def socketAddress? (endpoint : String) : Option String :=
  let address := authority endpoint
  if isNumeric address then some (String.ofList address)
  else match splitLastColon? address with
    | none => none
    | some (host, port) =>
      if host.isEmpty || (Number.readBounded? largestPort port).isNone then none
      else some (String.ofList (host ++ ':' :: port))

def startsWithScheme (cs : List Char) : Bool :=
  "http://".toList.isPrefixOf cs || "https://".toList.isPrefixOf cs

def httpUrl (endpoint path : String) : String :=
  let cs := (endpoint.toList.reverse.dropWhile (· == '/')).reverse
  let base := if startsWithScheme cs then cs else "http://".toList ++ cs
  String.ofList base ++ path

end ServiceDirectory.Endpoint
