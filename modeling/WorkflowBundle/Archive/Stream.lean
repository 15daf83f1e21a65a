/-! Bytes that are read one after another from a source that may fail. -/
namespace WorkflowBundle

/-- The bytes that can be read. Behind them is the end when the stream is sound, and
otherwise a fault. -/
structure ByteStream where
  bytes : List UInt8
  sound : Bool
  deriving DecidableEq, Repr

namespace ByteStream

/-- At most `n` bytes; fewer only if the stream ends with them. -/
def read? (n : Nat) (s : ByteStream) : Option (List UInt8) :=
  let front := s.bytes.take n
  if s.sound || front.length == n then some front else none

/-- What is left behind `n` bytes, which must be there. -/
def skip? (n : Nat) (s : ByteStream) : Option ByteStream :=
  if (s.bytes.take n).length == n then some ⟨s.bytes.drop n, s.sound⟩ else none

def limit (n : Nat) (s : ByteStream) : ByteStream :=
  let front := s.bytes.take n
  ⟨front, s.sound || front.length == n⟩

end ByteStream

end WorkflowBundle
