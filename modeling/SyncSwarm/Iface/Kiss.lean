import SyncSwarm.Lib.Bytes

/-! KISS framing (`internal/iface/kiss.go`): frames on a byte stream, with the delimiter escaped inside of them. A
    reader is the list of the bytes that are still to come; at its end `ReadByte` fails. -/

namespace SyncSwarm.Iface
open Lib

def kissFEND : UInt8 := 0xC0
def kissFESC : UInt8 := 0xDB
def kissTFEND : UInt8 := 0xDC
def kissTFESC : UInt8 := 0xDD
def kissCmdData : UInt8 := 0x00

def kissEscape (b : UInt8) : Bytes :=
  if b = kissFEND then [kissFESC, kissTFEND] else if b = kissFESC then [kissFESC, kissTFESC] else [b]

def kissEncode (payload : Bytes) : Bytes := kissFEND :: kissCmdData :: payload.flatMap kissEscape ++ [kissFEND]

/-- The byte behind an escape; a malformed escape is tolerated. --/
def kissUnescape (n : UInt8) : UInt8 := if n = kissTFEND then kissFEND else if n = kissTFESC then kissFESC else n

/-- The first loop of `readKISSFrame`: what comes behind the next delimiter. --/
def skipToFrame : Bytes → Option Bytes
  | [] => none
  | b :: r => if b = kissFEND then some r else skipToFrame r

/-- The second loop, with what it has of the frame. --/
def readFrame (frame : Bytes) : Bytes → Option (Bytes × Bytes)
  | [] => none
  | b :: r =>
    if b = kissFEND then if frame.length = 0 then readFrame frame r else some (frame.tail, r)
    else if b = kissFESC then
      match r with
      | [] => none
      | n :: r => readFrame (frame ++ [kissUnescape n]) r
    else readFrame (frame ++ [b]) r

/-- The payload and what is left to read, or the error of the reader. --/
def readKISSFrame (r : Bytes) : Option (Bytes × Bytes) := (skipToFrame r).bind (readFrame [])

theorem length_skipToFrame {r rest : Bytes} (h : skipToFrame r = some rest) : rest.length < r.length := by
  induction r with
  | nil => cases h
  | cons b r ih =>
    rw [skipToFrame] at h
    split at h
    · cases h
      exact Nat.lt_succ_self _
    · exact Nat.lt_succ_of_lt (ih h)

theorem length_readFrame {frame r out rest : Bytes} (h : readFrame frame r = some (out, rest)) :
    rest.length < r.length := by
  fun_induction readFrame frame r with
  | case1 | case4 => cases h
  | case2 _ _ _ ih | case6 _ _ _ _ _ ih => exact Nat.lt_succ_of_lt (ih h)
  | case3 =>
    cases h
    exact Nat.lt_succ_self _
  | case5 _ _ _ _ ih => exact Nat.lt_succ_of_lt (Nat.lt_succ_of_lt (ih h))

def readAll (r : Bytes) : List Bytes :=
  match _h : readKISSFrame r with
  | none => []
  | some (frame, rest) => frame :: readAll rest
termination_by r.length
decreasing_by
  obtain ⟨start, hstart, hframe⟩ := Option.bind_eq_some_iff.mp _h
  exact Nat.lt_trans (length_readFrame hframe) (length_skipToFrame hstart)

end SyncSwarm.Iface
