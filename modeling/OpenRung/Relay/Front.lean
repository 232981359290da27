import OpenRung.Relay.Identity

/-! Front lists of the WSS transport (`wsscore/front.go`), normalised with a sort that need not be stable.
    `url.Parse`, `strings.EqualFold` and `net.ParseIP` are parameters. -/

namespace OpenRung.Broker
open Joined

def maxFrontURLBytes : Nat := 512
def bridgePath : String := "/api/v1/wss-bridge"

/-- A URL as `url.Parse` returns it. `userinfo` is `User != nil`. -/
structure ParsedURL where
  scheme : String
  opaquePart : String := ""
  userinfo : Bool := false
  host : String
  hostname : String
  port : String := ""
  path : String
  rawPath : String := ""
  rawQuery : String := ""
  forceQuery : Bool := false
  fragment : String := ""
  deriving DecidableEq, Repr

/-- `URL.String` of a URL that has a host and a path only, neither with characters to escape. -/
def ParsedURL.string (parsed : ParsedURL) : String := parsed.scheme ++ "://" ++ parsed.host ++ parsed.path

structure URLRules where
  parse : String → Option ParsedURL
  equalFold : String → String → Bool
  isIP : String → Bool
  toLower : String → String

def validFrontLabel (label : Bytes) : Bool :=
  label ≠ [] && label.length ≤ 63 && label.head? ≠ some 45 && label.getLast? ≠ some 45 &&
    label.all fun c => Wss.isLower c || Wss.isDigit c || c = 45

def validFrontDNSName (host : Bytes) : Bool :=
  host ≠ [] && host.length ≤ 253 && host.getLast? ≠ some 46 &&
    (let labels := host.splitOn 46
    2 ≤ labels.length && labels.all validFrontLabel &&
      match (labels.getLast?.bind List.head?) with
      | some first => Wss.isLower first
      | none => false)

def URLRules.normalizeFrontURL (urls : URLRules) (raw : String) : Option String :=
  if containsAny raw ['\r', '\n', '\t'] then none
  else
    let raw := trimSpace raw
    if raw = "" ∨ (utf8 raw).length > maxFrontURLBytes then none
    else match urls.parse raw with
      | none => none
      | some parsed =>
        if parsed.opaquePart ≠ "" ∨ parsed.host = "" ∨ parsed.hostname = "" then none
        else if !urls.equalFold parsed.scheme "wss" then none
        else if parsed.userinfo ∨ parsed.rawQuery ≠ "" ∨ parsed.forceQuery ∨ parsed.fragment ≠ "" then none
        else if parsed.port ≠ "" ∨ parsed.host ≠ parsed.hostname then none
        else
          let host := urls.toLower parsed.hostname
          if !validFrontDNSName (utf8 host) ∨ urls.isIP host then none
          else if parsed.path ≠ bridgePath ∨ parsed.rawPath ≠ "" then none
          else some { parsed with scheme := "wss", host }.string

def IdentityCrypto.withURLs (crypto : IdentityCrypto) (urls : URLRules) : IdentityCrypto :=
  { crypto with toLower := urls.toLower, normalizeFrontURL := urls.normalizeFrontURL }

/-- The id of the front before, and the urls seen. -/
def distinctFronts : Option String → List String → List WSSFrontDescriptor → Bool
  | _, _, [] => true
  | previous, seenURLs, front :: rest =>
    if previous = some front.id then false
    else if front.url ∈ seenURLs then false
    else distinctFronts (some front.id) (front.url :: seenURLs) rest

def IdentityCrypto.normalizeFronts (crypto : IdentityCrypto) (sort : List WSSFrontDescriptor → List WSSFrontDescriptor)
    (fronts : List WSSFrontDescriptor) : Except StoreError (List WSSFrontDescriptor) :=
  if fronts = [] then .ok []
  else if fronts.length > maxWSSFronts then .error .wssFrontInvalid
  else match fronts.mapM crypto.normalizeFront with
    | none => .error .wssFrontInvalid
    | some normalized =>
      if distinctFronts none [] (sort normalized) then .ok (sort normalized) else .error .wssFrontInvalid

end OpenRung.Broker
