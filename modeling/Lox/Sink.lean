namespace Lox

/-- `limit` is the number of newlines after which the sink closes, if it ever does. -/
structure Sink where
  written : String
  newlines : Nat
  limit : Option Nat
deriving DecidableEq, Repr

namespace Sink

def fresh (limit : Option Nat) : Sink := ⟨"", 0, limit⟩

def isClosed (sink : Sink) : Bool :=
  match sink.limit with
  | some limit => limit ≤ sink.newlines
  | none => false

/-- Writing nothing always succeeds. -/
def accepts (sink : Sink) (text : String) : Bool := text.isEmpty || !sink.isClosed

def append (sink : Sink) (text : String) : Sink :=
  { sink with
    written := sink.written ++ text
    newlines := sink.newlines + text.toList.count '\n' }

end Sink

end Lox
