import LetLang.Token.Lexer
/-!
# Token streams

A stream hands out the tokens of a feed one by one. It keeps the tokens that were looked at and
not yet taken in a buffer, hands out the end of the source as often as asked, and remembers the
last token taken. A fault of the feed is met once, by the first who asks beyond the tokens.
-/
namespace LetLang

structure TokenStream where
  source : String
  buffer : List Token
  feed : Lexer.Feed
  last : Option Token
  deriving DecidableEq, Repr

/-- Computations that take tokens from a stream; a fault leaves the stream where it occurred. -/
abbrev Reading := ExceptT Fault (StateM TokenStream)

namespace TokenStream

/-- A stream over a feed; the source is named in the errors that it gives rise to. -/
def ofFeed (source : String) (feed : Lexer.Feed) : TokenStream :=
  { source, buffer := [], feed, last := none }

def ofText (text : String) : TokenStream :=
  ofFeed text (Lexer.tokenize text)

/-- The tokens that are still to be taken. -/
def pending (stream : TokenStream) : List Token :=
  stream.buffer ++ stream.feed.tokens

/-- Moves the next token of the feed into the buffer. -/
def pull : Reading Unit := do
  let stream ← get
  match stream.feed.tokens, stream.feed.ending with
  | token :: tokens, _ =>
    set { stream with
      buffer := stream.buffer ++ [token], feed := { stream.feed with tokens } }
  | [], some fault =>
    set { stream with feed := { tokens := [], ending := none } }
    throw fault
  | [], none => throw .exhausted

/-- Whether the end of the source is in the buffer. -/
def sawEnd (stream : TokenStream) : Bool :=
  stream.buffer.getLast?.any (·.kind = .eof)

/-- Pulls `n` tokens, or as many as there are up to the end of the source. -/
def fetch : Nat → Reading Unit
  | 0 => pure ()
  | n + 1 => do
    if (← get).sawEnd then return
    pull
    fetch n

/-- The token `k` places ahead, or the end of the source if it comes before. -/
def peekAt (k : Nat) : Reading Token := do
  fetch (k + 1 - (← get).buffer.length)
  let stream ← get
  match stream.buffer[k]?.or stream.buffer.getLast? with
  | some token => return token
  | none => throw .exhausted

/-- The next token. -/
def peek : Reading Token :=
  peekAt 0

/-- Takes the next token; the end of the source stays. -/
def advance : Reading Token := do
  let token ← peek
  modify fun stream =>
    { stream with
      buffer := if token.kind = .eof then stream.buffer else stream.buffer.tail
      last := some token }
  return token

/-- Takes the next token, which has to be of one of the kinds. -/
def expect (kinds : List Kind) : Reading Token := do
  let token ← peek
  if token.kind ∈ kinds then advance
  else throw (.language (.unexpectedToken kinds token (← get).source))

/-- Whether the next token is of one of the kinds. -/
def nextIs (kinds : List Kind) : Reading Bool := do
  return (← peek).kind ∈ kinds

/-- Whether the source is at its end. -/
def atEnd : Reading Bool :=
  nextIs [.eof]

end TokenStream
end LetLang
