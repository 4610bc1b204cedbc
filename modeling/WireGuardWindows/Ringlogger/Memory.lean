import WireGuardWindows.GoStd.Strings
import WireGuardWindows.Systems.Ring

/-!
# The log in shared memory

`ringlogger.go`: a file mapping with a counter and 2048 slots, each with a time stamp and 512
bytes of text that end at the first NUL. Writers of several processes share it, each with
its own tag; a reader polls it with a cursor. A call is one step here, so what a slot looks
like in the middle of a write is not part of the model.
-/

namespace WireGuardWindows
open GoStd Strings

namespace Ringlogger

def maxLogLineLength : Nat := 512
def maxTagLength : Nat := 5
def maxLines : Nat := 2048

end Ringlogger

open Ringlogger

/-- An open log. `NewRinglogger` refuses a longer tag; the readers that map an inherited
handle cannot write. -/
structure Ringlogger where
  tag : Str
  mapped : Bool
  readOnly : Bool
  tag_le : readOnly = false → tag.length ≤ maxTagLength

namespace Ringlogger

structure LogLine where
  timeNs : Int64
  line : List UInt8

def LogLine.blank : LogLine := ⟨0, List.replicate maxLogLineLength 0⟩

structure LogMem where
  nextIndex : UInt32
  lines : Nat → LogLine

def LogMem.empty (nextIndex : UInt32) : LogMem := ⟨nextIndex, fun _ => .blank⟩

def slot (i : UInt32) : Nat := i.toNat % maxLines

def newRinglogger (tag : Str) : Option Ringlogger :=
  if h : tag.length ≤ maxTagLength then some ⟨tag, true, false, fun _ => h⟩ else none

def copyAt (dst : List UInt8) (off : Nat) (src : List UInt8) : List UInt8 :=
  dst.take off ++ src.take (dst.length - off) ++ dst.drop (off + src.length)

/-- The bytes of a slot after the assignments of `WriteWithTimestamp`. -/
def lineBytes (tag p : Str) : List UInt8 :=
  let tooLong := 3 + p.length + tag.length > maxLogLineLength - 1
  let text := if tooLong then p.take (maxLogLineLength - 1 - 3 - tag.length) else p
  let textLen := if tooLong then maxLogLineLength - 1 else 3 + p.length + tag.length
  let line := List.replicate maxLogLineLength 0
  let line := (line.set textLen 0).set 0 0
  let line := copyAt line 1 tag
  let line := (line.set (1 + tag.length) closeBracket).set (2 + tag.length) 0x20
  let line := copyAt line (3 + tag.length) text
  line.set 0 openBracket

inductive WriteError
  | shortWrite
  | eof
  deriving DecidableEq

def writeWithTimestamp (rl : Ringlogger) (log : LogMem) (p : Str) (ts : Int64) :
    LogMem × Nat × Option WriteError :=
  if rl.readOnly then (log, 0, some .shortWrite)
  else
    let text := trimSpace p
    if text = [] then (log, p.length, none)
    else if !rl.mapped then (log, 0, some .eof)
    else
      let index := log.nextIndex
      ({ nextIndex := index + 1
         lines := Function.update log.lines (slot index) ⟨ts, lineBytes rl.tag text⟩ },
        p.length, none)

def LogLine.text (l : LogLine) : Option Str :=
  match cut l.line 0 with
  | (before, _, true) => if before = [] then none else some before
  | (_, _, false) => none

structure FollowLine where
  line : Str
  stamp : Int64
  deriving DecidableEq

def LogLine.followLine (l : LogLine) : Option FollowLine := l.text.map (⟨·, l.timeNs⟩)

def LogLine.print (format : Int64 → Str) (l : LogLine) : Str :=
  if l.timeNs = 0 then []
  else match l.text with
    | none => []
    | some text => format l.timeNs ++ str ": " ++ text ++ [newline]

def writeTo (format : Int64 → Str) (log : LogMem) : Str :=
  (List.range maxLines).flatMap fun l =>
    (log.lines (slot (log.nextIndex + UInt32.ofNat l))).print format

def cursorAll : UInt32 := 0xFFFFFFFF

/-- The loop of `FollowFromCursor`; `all` says that the cursor is `CursorAll`. -/
def followLoop (log : LogMem) (all : Bool) : Nat → UInt32 → UInt32 → List FollowLine →
    List FollowLine × UInt32
  | 0, _, nextCursor, followLines => (followLines, nextCursor)
  | fuel + 1, i, nextCursor, followLines =>
    let line := log.lines (slot i)
    if !all ∧ slot i = slot log.nextIndex then (followLines, nextCursor)
    else if line.timeNs = 0 then
      if all then followLoop log all fuel (i + 1) nextCursor followLines
      else (followLines, nextCursor)
    else
      followLoop log all fuel (i + 1) (UInt32.ofNat (slot (i + 1)))
        (followLines ++ line.followLine.toList)

def followFromCursor (log : LogMem) (cursor : UInt32) : List FollowLine × UInt32 :=
  if cursor = cursorAll then followLoop log true maxLines log.nextIndex cursor []
  else followLoop log false maxLines cursor cursor []

end Ringlogger

end WireGuardWindows
