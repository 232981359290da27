import OpenRung.Lib.SortedSearch
import OpenRung.Net.Addr
import OpenRung.Relay.Identity

/-! The datacenter ranges of the source classifier (`internal/broker/source_class.go`). -/

namespace OpenRung.Broker

/-! ### Files -/

/-- A file as its scanner yields it: the lines, and whether the scanner stopped at an error. -/
structure Scan where
  lines : List String
  failed : Bool := false

inductive LineError where
  | fields
  | malformed
  | invalidRange
  deriving DecidableEq, Repr

inductive SourceError where
  | openFile
  | listRead
  | listEmpty
  | tableLine (line : Nat) (error : LineError)
  | tableRead
  | tableEmpty
  deriving DecidableEq, Repr

/-- A row's range: the loader accepts none that ends before it starts. -/
structure AddrRange where
  start : Addr
  end_ : Addr
  ordered : ¬end_ < start
  deriving DecidableEq

def AddrRange.Covers (r : AddrRange) (addr : Addr) : Prop := r.start ≤ addr ∧ addr ≤ r.end_

def parseUint32 (text : List Char) : Option Nat :=
  ((Addr.asciiOnly text).bind Decimal.parseUint).bind fun n => if n < 2 ^ 32 then some n else none

/-- The ASN that a line of the list names: `AS` in any case is skipped, and what follows the digits is ignored. -/
def listedASN (text : String) : Option Nat :=
  let line := (trimSpace text).toList
  let line := match line with
    | a :: s :: rest => if (a = 'A' ∨ a = 'a') ∧ (s = 'S' ∨ s = 's') then rest else line
    | _ => line
  (parseUint32 (line.takeWhile Char.isDigit)).bind fun asn => if asn = 0 then none else some asn

def readDatacenterASNs : Option Scan → Except SourceError (List Nat)
  | none => .error .openFile
  | some file =>
    let asns := file.lines.filterMap listedASN
    if file.failed then .error .listRead
    else if asns = [] then .error .listEmpty
    else .ok asns.dedup

def parseRow (text : String) : Except LineError (AddrRange × Nat) :=
  match text.toList.splitOn '\t' with
  | first :: second :: third :: _ =>
    match Addr.parse first, Addr.parse second, parseUint32 third with
    | some start, some end_, some asn =>
      if valid : start.unmap.is4 = end_.unmap.is4 ∧ ¬end_.unmap < start.unmap then
        .ok ({ start := start.unmap, end_ := end_.unmap, ordered := valid.2 }, asn)
      else .error .invalidRange
    | _, _, _ => .error .malformed
  | _ => .error .fields

/-- The number of rows from line `line` on, and the ranges of the listed ASNs. -/
def readRows (asns : List Nat) : Nat → List String → Except SourceError (Nat × List AddrRange)
  | _, [] => .ok (0, [])
  | line, text :: lines =>
    if trimSpace text = "" then readRows asns (line + 1) lines
    else match parseRow text with
      | .error e => .error (.tableLine line e)
      | .ok (range, asn) =>
        (readRows asns (line + 1) lines).map fun (rows, ranges) =>
          (rows + 1, if asn ∈ asns then range :: ranges else ranges)

/-- `slices.SortFunc` by start. It is not stable: ranges with one start come in any order. -/
structure SortFunc where
  run : List AddrRange → List AddrRange
  perm : ∀ ranges, (run ranges).Perm ranges
  sorted : ∀ ranges, (run ranges).Pairwise fun a b => a.start ≤ b.start

def readDatacenterRanges (sort : SortFunc) (asns : List Nat) : Option Scan → Except SourceError (List AddrRange)
  | none => .error .openFile
  | some file =>
    match readRows asns 1 file.lines with
    | .error e => .error e
    | .ok (rows, ranges) =>
      if file.failed then .error .tableRead
      else if rows = 0 then .error .tableEmpty
      else .ok (sort.run ranges)

structure SourceData where
  ranges : List AddrRange
  asnCount : Nat
  deriving DecidableEq

def loadSourceData (sort : SortFunc) (table list : Option Scan) : Except SourceError SourceData :=
  match readDatacenterASNs list with
  | .error e => .error e
  | .ok asns => (readDatacenterRanges sort asns table).map fun ranges => { ranges, asnCount := asns.length }

def SourceData.contains (d : SourceData) (addr : Addr) : Bool :=
  let i := SortedSearch.search (fun r => decide (r.start < addr)) d.ranges 0 d.ranges.length
  if (d.ranges[i]?).any fun r => decide (r.start = addr) then true
  else if i = 0 then false
  else (d.ranges[i - 1]?).any fun r => decide (addr ≤ r.end_)

end OpenRung.Broker
