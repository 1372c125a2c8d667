import AboveFold.Token.Basic

/-!
# Tokens with a look ahead

A stream hands out tokens one at a time and can look at later ones first. Tokens that were looked at
wait in a buffer, which holds no more than the farthest look asked for.
-/

namespace AboveFold.Token

/-- Tokens that were looked at already, and those still with the supplier. -/
structure Stream where
  buffer : List Token
  supply : List Token

namespace Stream

/-- A stream that has not looked at anything. -/
def ofList (tokens : List Token) : Stream := ⟨[], tokens⟩

/-- The tokens that the stream has still to hand out. -/
def toList (s : Stream) : List Token := s.buffer ++ s.supply

/-- Takes tokens from the supply until the buffer holds `n`, or there are no more. -/
def fill (s : Stream) (n : Nat) : Stream :=
  let more := n - s.buffer.length
  ⟨s.buffer ++ s.supply.take more, s.supply.drop more⟩

/-- Looks at the token that comes after `n` others. -/
def peekAt (s : Stream) (n : Nat) : Option Token × Stream :=
  let s := s.fill (n + 1)
  (s.buffer[n]?, s)

/-- Looks at the next token. -/
def peek (s : Stream) : Option Token × Stream :=
  s.peekAt 0

/-- Hands out the next token. -/
def next (s : Stream) : Option Token × Stream :=
  let s := s.fill 1
  (s.buffer.head?, { s with buffer := s.buffer.tail })

/-- Whether only the end of input is left, or nothing. -/
def atEnd (s : Stream) : Bool × Stream :=
  let (token, s) := s.peek
  (token.all (·.kind = .eof), s)

end Stream

end AboveFold.Token
