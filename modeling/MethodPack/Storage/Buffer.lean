import MethodPack.Storage.Access
import MethodPack.Storage.Sink

/-! Buffers in front of temporary files. Bytes wait in the buffer until it has no room for
more, until it is flushed or until it is given up; a chunk that fills a whole buffer goes past
it. -/
namespace MethodPack

/-- A temporary file behind a buffer of a given capacity, and the bytes that the buffer holds. -/
structure BufferedFile (Temp : Type) (m : Type → Type) where
  files : FileAccess Temp m
  temp : Temp
  capacity : Nat
  held : Array UInt8 := #[]

namespace BufferedFile

variable {Temp : Type} {m : Type → Type} [Monad m]

/-- Passes the held bytes on. Those that the file does not take stay in the buffer. -/
def pass (file : BufferedFile Temp m) : m (Except StorageFault Unit × BufferedFile Temp m) := do
  if file.held.isEmpty then return (.ok (), file)
  else
    let (result, rest) ← file.files.write file.temp file.held.toList
    return (result, { file with held := rest.toArray })

/-- Holds a chunk, or writes it to the file at once when the buffer could never hold it. -/
def take (file : BufferedFile Temp m) (chunk : List UInt8) :
    m (Except StorageFault Unit × BufferedFile Temp m) := do
  if chunk.length < file.capacity then return (.ok (), { file with held := file.held ++ chunk })
  else return ((← file.files.write file.temp chunk).1, file)

/-- Writes a chunk. The held bytes are passed on first if there is no room for it behind them. -/
def write (file : BufferedFile Temp m) (chunk : List UInt8) :
    m (Except StorageFault Unit × BufferedFile Temp m) := do
  if chunk.length ≤ file.capacity - file.held.size then file.take chunk
  else
    match ← file.pass with
    | (.ok (), file) => file.take chunk
    | failed => return failed

/-- Passes the held bytes on, and flushes the file. -/
def flush (file : BufferedFile Temp m) : m (Except StorageFault Unit × BufferedFile Temp m) := do
  match ← file.pass with
  | (.ok (), file) => return (← file.files.flush file.temp, file)
  | failed => return failed

/-- Gives the buffer up. What it holds is passed on, with nobody to hear of a failure. -/
def release (file : BufferedFile Temp m) : m Unit := do
  let _ ← file.pass

/-- Takes the file out of the buffer once the held bytes are passed on; if that fails, the
buffer is given up. -/
def close (file : BufferedFile Temp m) : m (Except StorageFault Unit) := do
  match ← file.pass with
  | (.ok (), _) => return .ok ()
  | (.error fault, file) =>
    file.release
    return .error fault

end BufferedFile

instance {Temp : Type} {m : Type → Type} [Monad m] : ByteSink (BufferedFile Temp m) m where
  write := BufferedFile.write
  flush := BufferedFile.flush

end MethodPack
