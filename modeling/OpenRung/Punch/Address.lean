import OpenRung.Lib.Decimal

/-! Addresses of punch candidates (`punchcore/protocol.go`), and what the code takes from package `net` to read and
    judge them. -/

namespace OpenRung.Punch

/-! ### Addresses -/

/-- An address in its 16-byte form; an IPv4 address is mapped into IPv6. -/
structure IP where
  bytes : Bytes
  sized : bytes.length = 16
  deriving DecidableEq, Repr

def parseOctet (digits : Bytes) : Option UInt8 :=
  if digits.length ≠ 1 ∧ digits.head? = some 48 then none
  else (Decimal.parseUint digits).bind fun n => if n ≤ 255 then some (UInt8.ofNat n) else none

def parseIPv4Fields (text : Bytes) : Option Bytes :=
  match text.splitOn 46 with
  | [a, b, c, d] => [a, b, c, d].mapM parseOctet
  | _ => none

def hexValue (c : UInt8) : Option Nat :=
  if 48 ≤ c ∧ c ≤ 57 then some (c.toNat - 48)
  else if 97 ≤ c ∧ c ≤ 102 then some (c.toNat - 87)
  else if 65 ≤ c ∧ c ≤ 70 then some (c.toNat - 55)
  else none

/-- The bytes read, where an ellipsis stands among them, and the text that is left. -/
def parseGroups : Nat → Bytes → Bytes → Option Nat → Option (Bytes × Option Nat × Bytes)
  | 0, text, ip, ellipsis => some (ip, ellipsis, text)
  | room + 1, text, ip, ellipsis =>
    let digits := text.takeWhile fun c => (hexValue c).isSome
    let rest := text.drop digits.length
    if digits = [] ∨ digits.length > 4 then none
    else if rest.head? = some 46 then
      -- a dotted tail, in the last four bytes or after an ellipsis
      if (ellipsis = none ∧ ip.length ≠ 12) ∨ ip.length + 4 > 16 then none
      else (parseIPv4Fields text).map fun fields => (ip ++ fields, ellipsis, [])
    else
      let group := digits.foldl (fun value c => 16 * value + (hexValue c).getD 0) 0
      let ip := ip ++ [UInt8.ofNat (group / 256), UInt8.ofNat (group % 256)]
      match rest with
      | [] => some (ip, ellipsis, [])
      | [_] => none
      | colon :: next :: more =>
        if colon ≠ 58 then none
        else if next ≠ 58 then parseGroups room (next :: more) ip ellipsis
        else if ellipsis.isSome then none
        else if more = [] then some (ip, some ip.length, [])
        else parseGroups room more ip (some ip.length)

def parseIPv6 (text : Bytes) : Option Bytes :=
  let (text, ellipsis) := match text with
    | 58 :: 58 :: rest => (rest, some 0)
    | _ => (text, none)
  if text = [] ∧ ellipsis.isSome then some (List.replicate 16 0)
  else match parseGroups 8 text [] ellipsis with
    | some (ip, some at_, []) =>
      if ip.length < 16 then some (ip.take at_ ++ List.replicate (16 - ip.length) 0 ++ ip.drop at_) else none
    | some (ip, none, []) => if ip.length < 16 then none else some ip
    | _ => none

def v4InV6 : Bytes := [0, 0, 0, 0, 0, 0, 0, 0, 0, 0, 255, 255]

/-- `net.ParseIP`. The first of the three characters decides what is parsed; a zone is not accepted. -/
def parseIP (text : Bytes) : Option IP :=
  let bytes := match text.find? fun c => c = 46 ∨ c = 58 ∨ c = 37 with
    | some 46 => (parseIPv4Fields text).map (v4InV6 ++ ·)
    | some 58 => if 37 ∈ text then none else parseIPv6 text
    | _ => none
  bytes.bind fun bytes => if sized : bytes.length = 16 then some ⟨bytes, sized⟩ else none

namespace IP

def to4 (ip : IP) : Option Bytes := if ip.bytes.take 12 = v4InV6 then some (ip.bytes.drop 12) else none

def byte (bytes : Bytes) (i : Nat) : UInt8 := bytes.getD i 0

def isUnspecified (ip : IP) : Bool := ip.bytes = v4InV6 ++ [0, 0, 0, 0] || ip.bytes = List.replicate 16 0

def isLoopback (ip : IP) : Bool :=
  match ip.to4 with
  | some v4 => byte v4 0 = 127
  | none => ip.bytes = List.replicate 15 0 ++ [1]

def isPrivate (ip : IP) : Bool :=
  match ip.to4 with
  | some v4 =>
    byte v4 0 = 10 || (byte v4 0 = 172 && byte v4 1 &&& 0xf0 = 16) || (byte v4 0 = 192 && byte v4 1 = 168)
  | none => byte ip.bytes 0 &&& 0xfe = 0xfc

def isMulticast (ip : IP) : Bool :=
  match ip.to4 with
  | some v4 => byte v4 0 &&& 0xf0 = 0xe0
  | none => byte ip.bytes 0 = 0xff

def isInterfaceLocalMulticast (ip : IP) : Bool := byte ip.bytes 0 = 0xff && byte ip.bytes 1 &&& 0x0f = 0x01

def isLinkLocalMulticast (ip : IP) : Bool :=
  match ip.to4 with
  | some v4 => byte v4 0 = 224 && byte v4 1 = 0 && byte v4 2 = 0
  | none => byte ip.bytes 0 = 0xff && byte ip.bytes 1 &&& 0x0f = 0x02

def isLinkLocalUnicast (ip : IP) : Bool :=
  match ip.to4 with
  | some v4 => byte v4 0 = 169 && byte v4 1 = 254
  | none => byte ip.bytes 0 = 0xfe && byte ip.bytes 1 &&& 0xc0 = 0x80

def isGloballyRoutable (ip : IP) : Bool :=
  if ip.isUnspecified || ip.isLoopback || ip.isPrivate || ip.isLinkLocalUnicast || ip.isLinkLocalMulticast ||
      ip.isMulticast || ip.isInterfaceLocalMulticast then false
  else match ip.to4 with
    | some v4 => !(byte v4 0 = 100 && 64 ≤ byte v4 1 && byte v4 1 ≤ 127)
    | none => true

end IP

/-! ### Endpoints -/

structure Endpoint where
  ip : Bytes
  port : Int
  kind : Bytes
  deriving DecidableEq, Repr

def kindHost : Bytes := ascii "host"
def kindSrflx : Bytes := ascii "srflx"

structure UDPAddr where
  ip : IP
  port : Int
  deriving DecidableEq, Repr

namespace Endpoint

/-- `UDPAddr`, whose two errors say that the address or the port is invalid. -/
def udpAddr (e : Endpoint) : Option UDPAddr :=
  (parseIP e.ip).bind fun ip => if e.port < 1 ∨ e.port > 65535 then none else some ⟨ip, e.port⟩

/-- `String`: `net.JoinHostPort` of the address and the port. -/
def text (e : Endpoint) : Bytes :=
  let host := if 58 ∈ e.ip then 91 :: (e.ip ++ [93]) else e.ip
  host ++ 58 :: Decimal.formatInt e.port

end Endpoint

def dedupeLoop (seen : List Bytes) : List Endpoint → List Endpoint
  | [] => []
  | e :: rest =>
    if e.ip = [] ∨ e.port ≤ 0 then dedupeLoop seen rest
    else if e.text ∈ seen then dedupeLoop seen rest
    else e :: dedupeLoop (e.text :: seen) rest

def dedupeEndpoints (endpoints : List Endpoint) : List Endpoint := dedupeLoop [] endpoints

end OpenRung.Punch
