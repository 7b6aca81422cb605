/-
# PegFlow.Reader — parsing octets from outside

Octets come in reads of any size that may end inside a character. What a read
leaves of a character is carried over to the next one; whole characters are
written to a stream. A read without octets is the end. A read that was
interrupted is tried again, and one that failed ends the parse. The reads share one
window, which is set aside at the start.
-/
import PegFlow.Parser
import PegFlow.Text.Utf8

namespace PegFlow

set_option autoImplicit false

/-- What one read gives. -/
inductive Read where
  | octets (bs : List UInt8)
  | interrupted
  | failed (message : String)
deriving DecidableEq, Repr

namespace Read

/-- Cut octets into pieces of at most `limit`; none stay none. -/
def cut (limit : Nat) : Nat → List UInt8 → List Read
  | 0, bs => [.octets bs]
  | fuel + 1, bs =>
    if bs.length ≤ limit then [.octets bs]
    else .octets (bs.take limit) :: cut limit fuel (bs.drop limit)

/-- The reads through a window of `limit` octets. -/
def limited (limit : Nat) (reads : List Read) : List Read :=
  reads.flatMap fun r =>
    match r with
    | .octets bs => cut limit bs.length bs
    | r => [r]

end Read

namespace Parser

/-- The wording of octets that no text contains: how many, and after how many of
those not parsed yet. -/
def invalidOctets (size index : Nat) : String :=
  s!"invalid utf-8 sequence of {size} bytes from index {index}"

/-- The wording of an end inside a character. -/
def cutOff : String := "stream ended inside a UTF-8 sequence"

/-- End a stream of which `carry` is left. -/
def finishReads (s : Stream) (carry : List UInt8) : Except ParseError Value :=
  if carry.isEmpty then s.close.2 else (s.fail (.inputOutput cutOff) s.buffer.length).2

/-- Go on with a stream, `carry` being the start of a character. -/
def feed (s : Stream) (carry : List UInt8) : List Read → Except ParseError Value
  | [] => finishReads s carry
  | .octets [] :: _ => finishReads s carry
  | .interrupted :: rest => feed s carry rest
  | .failed message :: _ => (s.fail (.inputOutput message) s.buffer.length).2
  | .octets bs :: rest =>
    let all := carry ++ bs
    let (cs, left, ending) := Text.Utf8.decode all
    let valid := all.length - left.length
    match ending with
    | .invalid size =>
      (s.fail (.inputOutput (invalidOctets size valid)) (s.buffer.length + valid)).2
    | _ =>
      if valid = 0 then feed s left rest
      else
        match s.write (String.ofList cs) with
        | (s, .ok _) => feed s left rest
        | (_, .error e) => .error e

/-- The most octets that can be asked for at once. -/
def maxAllocation : Nat := UInt64.size / 2 - 1

/-- Parse all that the reads give, at most `size` octets at a time, or four. There is
no answer when the window for them is larger than anything that can be asked for: the
program ends before the first read. -/
def read (p : Parser) (reads : List Read) (size : Nat) : Option (Except ParseError Value) :=
  if maxAllocation < max size 4 then none
  else some (feed p.stream [] (Read.limited (max size 4) reads))

end Parser

end PegFlow
