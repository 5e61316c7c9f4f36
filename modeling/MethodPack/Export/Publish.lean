import MethodPack.Export.Session
import MethodPack.Storage.Buffer

/-! Exporting to a file. The stream goes through a buffer to a temporary file in the
directory of the destination, which takes the destination's place only when all of it is
written. When anything fails, the temporary file is taken away and the destination stays as
it was. -/
namespace MethodPack.Export

variable {Temp : Type} {m : Type → Type} [Monad m]

/-- A file operation as a step of an export. -/
def onFile (operation : m (Except StorageFault α)) : ExceptT ExportError m α :=
  ExceptT.mk do return (← operation).mapError .storage

/-- Exports through a buffer to a temporary file. When the export fails, its buffer is given up;
else the file is taken out of it. -/
def fill (files : FileAccess Temp m) (capacity : Nat) (types : List TypeDef) (ns : String)
    (temp : Temp) : ExceptT ExportError m Summary := do
  let file : BufferedFile Temp m := { files, temp, capacity }
  match ← ExceptT.lift (packInto file types ns) with
  | (.error e, file) =>
    ExceptT.lift file.release
    throw e
  | (.ok summary, file) =>
    onFile file.close
    return summary

/-- Fills a temporary file with the stream and puts it in place of `path`. -/
def fillAndReplace (files : FileAccess Temp m) (capacity : Nat) (types : List TypeDef)
    (ns path : String) (temp : Temp) : ExceptT ExportError m Summary := do
  let summary ← fill files capacity types ns temp
  onFile (files.sync temp)
  onFile (files.replace temp path)
  return summary

/-- Exports every top-level type of exactly the given namespace to the file at `path`. -/
def publish (files : FileAccess Temp m) (types : List TypeDef) (ns path : String)
    (capacity : Nat := 0x2000) : m (Except ExportError Summary) := do
  match ← files.createTemp (Path.directory path) with
  | .error fault => return .error (.storage fault)
  | .ok temp =>
    match ← (fillAndReplace files capacity types ns path temp).run with
    | .ok summary => return .ok summary
    | .error e =>
      files.discard temp
      return .error e

end MethodPack.Export
