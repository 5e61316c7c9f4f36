import MethodPack.Storage.Fault

/-! Byte sinks. The one in memory may have a limit: a write that goes beyond stores what
fits and fails. -/
namespace MethodPack

/-- What a stream needs of the sink that it is written to. -/
class ByteSink (σ : Type) (m : outParam (Type → Type)) where
  /-- Writes all of a chunk, or fails. -/
  write : σ → (chunk : List UInt8) → m (Except StorageFault Unit × σ)
  /-- Passes on what has been written. -/
  flush : σ → m (Except StorageFault Unit × σ)

/-- The bytes written so far, the room there is for them in all, and whether the
final flush fails. -/
structure Sink where
  bytes : Array UInt8 := #[]
  limit : Option Nat := none
  flushFails : Bool := false
deriving DecidableEq, Repr, Inhabited

namespace Sink

/-- The part of a write that fits. -/
def fitting (s : Sink) (chunk : List UInt8) : List UInt8 :=
  match s.limit with
  | none => chunk
  | some limit => chunk.take (limit - s.bytes.size)

/-- Writes a chunk. An empty chunk always fits. -/
def write (s : Sink) (chunk : List UInt8) : Except StorageFault Unit × Sink :=
  let kept := s.fitting chunk
  let result := if kept.length = chunk.length then .ok () else .error .sinkFull
  (result, { s with bytes := s.bytes ++ kept })

def flush (s : Sink) : Except StorageFault Unit :=
  if s.flushFails then .error .flushFailed else .ok ()

end Sink

@[default_instance]
instance : ByteSink Sink Id where
  write := Sink.write
  flush sink := (sink.flush, sink)

end MethodPack
