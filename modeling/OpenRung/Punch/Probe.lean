import OpenRung.Lib.Slice

/-! The datagrams of the hole punch (`punchcore/probe.go`). A read out of bounds is `none`. -/

namespace OpenRung.Punch
open Slice

def probeMagic : Bytes := ascii "ORHOLE"
def probeAckMagic : Bytes := ascii "ORHOLEACK"
def tokenLen : Nat := 32

inductive ProbeKind where
  | none
  | probe
  | ack
  deriving DecidableEq, Repr

/-- The length is written as an unsigned number of 16 bits. -/
def buildProbePacket (magic sessionID token : Bytes) : Bytes :=
  magic ++ bigEndian 2 sessionID.length ++ sessionID ++ token

def matchProbe (data magic sessionID token : Bytes) : Option Bool := do
  let off := magic.length
  if data.length < off + 2 then return false
  if (← slice data 0 off) ≠ magic then return false
  let sl := ofBigEndian (← slice data off (off + 2))
  let off := off + 2
  if data.length < off + sl + tokenLen then return false
  if (← slice data off (off + sl)) ≠ sessionID then return false
  let off := off + sl
  return (← slice data off (off + tokenLen)) = token

/-- The longer magic first: the other one is a part of it. -/
def parseProbePacket (data sessionID token : Bytes) : Option ProbeKind := do
  if ← matchProbe data probeAckMagic sessionID token then return .ack
  if ← matchProbe data probeMagic sessionID token then return .probe
  return .none

end OpenRung.Punch
