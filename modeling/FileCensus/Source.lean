import FileCensus.Digest.Content

/-!
# Sources

A source is what an opened file gives: its bytes, and the failure that ends them if reading does not
reach the end.
-/

namespace FileCensus

structure Source where
  bytes : Bytes
  failure : Option IoFault
  deriving DecidableEq, Repr

namespace Source

def whole (bytes : Bytes) : Source := ⟨bytes, none⟩

def deliveries (s : Source) : List Content.Delivery :=
  .bytes s.bytes :: s.failure.toList.map .failure

end Source

end FileCensus
