import Stubwise.Token.Lexer

/-!
Streams of tokens with look-ahead. A live stream reads from a lexer on demand and can abandon an
open bracket; a replay goes through a finished list of tokens.
-/

namespace Stubwise

structure LiveStream where
  lexer : Lexer
  buffer : List Token := []
  ended : Bool := false

namespace LiveStream

def ofText (source : String) : LiveStream :=
  { lexer := Lexer.ofText source }

def fetch (stream : LiveStream) : LiveStream :=
  if stream.ended then stream
  else
    let (token, lexer) := stream.lexer.next
    { lexer, buffer := stream.buffer ++ [token], ended := token.kind == .eof }

def fill (stream : LiveStream) (count : Nat) : LiveStream :=
  (count - stream.buffer.length).repeat fetch stream

def next (stream : LiveStream) : Token × LiveStream :=
  let stream := stream.fill 1
  match stream.buffer with
  | [] => (.endOfInput, stream)
  | token :: rest =>
    if token.kind == .eof then (token, stream) else (token, { stream with buffer := rest })

def peek (stream : LiveStream) (count : Nat) : List Token × LiveStream :=
  let stream := stream.fill count
  (stream.buffer.take count, stream)

/-- Abandons the bracket that a statement starting on `line` left open. Nothing happens where no
bracket is open. -/
def resync (stream : LiveStream) (line : Nat) : Bool × LiveStream :=
  if stream.lexer.inBrackets then
    (true, { lexer := stream.lexer.resumeAfter line, buffer := [], ended := false })
  else (false, stream)

end LiveStream

structure Replay where
  tokens : List Token

namespace Replay

def next (replay : Replay) : Token × Replay :=
  match replay.tokens with
  | [] => (.endOfInput, replay)
  | token :: rest => if token.kind == .eof then (token, replay) else (token, ⟨rest⟩)

def peek (replay : Replay) (count : Nat) : List Token :=
  replay.tokens.take count

end Replay

inductive TokenStream where
  | live (stream : LiveStream)
  | replay (replay : Replay)

namespace TokenStream

def next : TokenStream → Token × TokenStream
  | live stream => let (token, stream) := stream.next; (token, live stream)
  | replay list => let (token, list) := list.next; (token, replay list)

def peek (count : Nat) : TokenStream → List Token × TokenStream
  | live stream => let (tokens, stream) := stream.peek count; (tokens, live stream)
  | replay list => (list.peek count, replay list)

def resync (line : Nat) : TokenStream → Bool × TokenStream
  | live stream => let (moved, stream) := stream.resync line; (moved, live stream)
  | replay list => (false, replay list)

end TokenStream

end Stubwise
