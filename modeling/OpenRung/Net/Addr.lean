import Mathlib.Data.Prod.Lex
import Mathlib.Data.String.Basic
import OpenRung.Punch.Address

/-! Addresses of `net/netip`, as far as the code asks them: how they are read, ordered and classified. -/

namespace OpenRung

inductive Addr where
  | v4 (value : Nat)
  | v6 (value : Nat) (zone : String)
  deriving DecidableEq, Repr

namespace Addr

def is4 : Addr → Bool
  | v4 _ => true
  | v6 _ _ => false

/-- `Compare` orders by bit length, then by value, then by zone. -/
def key : Addr → Nat ×ₗ Nat ×ₗ String
  | v4 value => toLex (32, toLex (value, ""))
  | v6 value zone => toLex (128, toLex (value, zone))

theorem key_injective : Function.Injective key := by
  rintro (a | ⟨a, za⟩) (b | ⟨b, zb⟩) same <;> simp_all [key]

instance : LinearOrder Addr := LinearOrder.lift' key key_injective

def is4In6 : Addr → Bool
  | v4 _ => false
  | v6 value _ => value / 2 ^ 32 = 0xffff

def zone : Addr → String
  | v4 _ => ""
  | v6 _ zone => zone

def inPrefix (value shift bits : Nat) : Bool := value / 2 ^ shift = bits

def isLoopback : Addr → Bool
  | v4 value => inPrefix value 24 127
  | v6 value _ => value = 1

def isMulticast : Addr → Bool
  | v4 value => inPrefix value 28 0xe
  | v6 value _ => inPrefix value 120 0xff

def isLinkLocalUnicast : Addr → Bool
  | v4 value => inPrefix value 16 0xa9fe
  | v6 value _ => inPrefix value 118 (0xfe80 / 64)

def isPrivate : Addr → Bool
  | v4 value => inPrefix value 24 10 || inPrefix value 20 0xac1 || inPrefix value 16 0xc0a8
  | v6 value _ => inPrefix value 121 (0xfc / 2)

def isGlobalUnicast (ip : Addr) : Bool :=
  ip ≠ v4 0 && ip ≠ v4 (2 ^ 32 - 1) && ip ≠ v6 0 "" && !ip.isLoopback && !ip.isMulticast && !ip.isLinkLocalUnicast

/-- `Unmap`: an IPv4 address in IPv6 is the IPv4 address, and has no zone. -/
def unmap : Addr → Addr
  | v4 value => v4 value
  | v6 value zone => if value / 2 ^ 32 = 0xffff then v4 (value % 2 ^ 32) else v6 value zone

def ofBytes (bytes : Bytes) : Nat := bytes.foldl (fun value b => 256 * value + b.toNat) 0

def asciiOnly (text : List Char) : Option Bytes :=
  if text.all fun c => c.toNat < 128 then some (text.map fun c => UInt8.ofNat c.toNat) else none

/-- `ParseAddr`: the first of the three characters decides what is parsed, and a zone is not empty. -/
def parse (text : List Char) : Option Addr :=
  match text.find? fun c => c = '.' ∨ c = ':' ∨ c = '%' with
  | some '.' => ((asciiOnly text).bind Punch.parseIPv4Fields).map fun bytes => v4 (ofBytes bytes)
  | some ':' =>
    let address := text.takeWhile (· ≠ '%')
    let zone := text.drop (address.length + 1)
    if '%' ∈ text ∧ zone = [] then none
    else ((asciiOnly address).bind Punch.parseIPv6).map fun bytes => v6 (ofBytes bytes) (String.ofList zone)
  | _ => none

end Addr

end OpenRung
