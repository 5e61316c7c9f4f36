import MethodPack.Export.Encode
import MethodPack.Storage.Sink

/-! An export in progress: a sink, the two tables and what has been counted. Each
method record is written in one piece, so that a method that fails leaves no part of
a record behind. -/
namespace MethodPack.Export

open Packed (MethodSignature Section SectionTag ByteOrder countBytes tableHeader maxLength)

/-- What an export has counted. Nested types count as types. -/
structure Counts where
  types : Nat := 0
  methods : Nat := 0
  instructions : Nat := 0
deriving DecidableEq, Repr, Inhabited

/-- The counts that a finished export reports. -/
structure Summary extends Counts where
  strings : Nat := 0
  blobs : Nat := 0
deriving DecidableEq, Repr, Inhabited

/-- An export in progress that writes to a sink of the given type. -/
structure SessionOn (σ : Type) where
  tables : Tables := {}
  counts : Counts := {}
  sink : σ := by exact {}

/-- A step of a session that may fail; the session outlives the failure. -/
abbrev SessionT (σ : Type) (m : Type → Type) := ExceptT ExportError (StateT (SessionOn σ) m)

/-- An export to memory. -/
abbrev Session := SessionOn Sink

/-- A step of an export to memory. -/
abbrev SessionM := ExceptT ExportError (StateM Session)

variable {α σ : Type} {m : Type → Type} [Monad m]

namespace Session

/-- A step that only works on the tables. -/
def onTables (e : Encoder α) : SessionT σ m α := fun ⟨tables, counts, sink⟩ =>
  let (result, tables) := e.run tables
  return (result, ⟨tables, counts, sink⟩)

/-- A step that only works on the counts. -/
def onCounts (f : Counts → α × Counts) : SessionT σ m α := fun ⟨tables, counts, sink⟩ =>
  let (result, counts) := f counts
  return (.ok result, ⟨tables, counts, sink⟩)

/-- A step that only works on the sink. -/
def onSink (f : σ → m (Except StorageFault Unit × σ)) : SessionT σ m Unit :=
  fun ⟨tables, counts, sink⟩ => do
    let (result, sink) ← f sink
    return (result.mapError .storage, ⟨tables, counts, sink⟩)

def count (f : Counts → Counts) : SessionT σ m Unit := onCounts fun c => ((), f c)

/-- The signature of a method, if its arguments fit. -/
def signature (method : String) (d : MethodDef) : SessionT σ m MethodSignature :=
  if d.argCount ≤ MethodSignature.maxArgs then
    return ⟨d.argCount.toUInt32, d.returnsValue⟩
  else throw (.tooManyArguments method d.argCount)

variable [ByteSink σ m]

/-- Writes a chunk to the sink. -/
def write (chunk : List UInt8) : SessionT σ m Unit := onSink fun sink => ByteSink.write sink chunk

/-- Passes on what has been written. -/
def flush : SessionT σ m Unit := onSink ByteSink.flush

/-- Opens the stream with the version marker. -/
def start : SessionT σ m Unit := write (ByteOrder.little.encode16 Packed.version)

/-- Writes the record of one method of a type. -/
def encodeMethod (type : QualifiedType) (d : MethodDef) : SessionT σ m Unit := do
  let fullName := type.memberName d.name
  let signature ← signature fullName d
  let positions ← Positions.build fullName d.instructions
  let key ← onTables (Encoder.reference type d.name)
  let body ← onTables (d.instructions.mapM (Encoder.instruction fullName positions))
  write ((Section.method key signature.pack body).bytes .little)
  count fun c => { c with
    methods := c.methods + 1
    instructions := c.instructions + d.instructions.length }

mutual

/-- Writes the methods of a type, which is nested in `enclosing` if that is given,
then those of its nested types. -/
def collect (enclosing : Option TypeRef) : TypeDef → SessionT σ m Unit
  | ⟨ns, name, methods, nested⟩ => do
    let this := match enclosing with
      | none => TypeRef.outermost ns name
      | some declaring => .nested ns name declaring
    count fun c => { c with types := c.types + 1 }
    methods.forM (encodeMethod this.qualify)
    collectAll this nested

/-- Writes the methods of the types nested in `this`. -/
def collectAll (this : TypeRef) : List TypeDef → SessionT σ m Unit
  | [] => return
  | type :: rest => do
    collect (some this) type
    collectAll this rest

end

/-- Writes the methods of a top-level type and of the types nested in it. -/
def collectType (type : TypeDef) : SessionT σ m Unit := collect none type

/-- The error for a table with too many entries. -/
def tooMany (tag : SectionTag) (count : Nat) : ExportError :=
  match tag with
  | .blob => .tooManyBlobs count
  | _ => .tooManyStrings count

/-- Writes an entry of a table, its length first. -/
def writeEntry (tag : SectionTag) (entry : List UInt8) : SessionT σ m Unit := do
  if maxLength < entry.length then throw (.entryTooLarge tag entry.length)
  write (countBytes .little entry.length)
  write entry

/-- Writes a table section entry by entry. -/
def writeTable (tag : SectionTag) (entries : List (List UInt8)) : SessionT σ m Unit := do
  if maxLength < entries.length then throw (tooMany tag entries.length)
  write (tableHeader .little tag entries.length)
  entries.forM (writeEntry tag)

/-- Closes the stream with both tables and flushes the sink. -/
def finish : SessionT σ m Summary := do
  let tables ← onTables get
  writeTable .string (tables.strings.entries.toList.map Text.toUtf8)
  writeTable .blob tables.blobs.entries.toList
  flush
  let counts ← onCounts fun c => (c, c)
  return { counts with strings := tables.strings.size, blobs := tables.blobs.size }

end Session

variable [ByteSink σ m]

/-- Exports every top-level type of exactly the given namespace. -/
def pack (types : List TypeDef) (ns : String) : SessionT σ m Summary := do
  Session.start
  (types.filter fun t => t.ns == ns).forM Session.collectType
  Session.finish

/-- Exports to a sink: the summary or the error, and the sink afterwards. -/
def packInto (sink : σ) (types : List TypeDef) (ns : String) :
    m (Except ExportError Summary × σ) := do
  let (result, session) ← (pack types ns).run { sink }
  return (result, session.sink)

/-- Exports to a sink in memory. -/
def packTo (sink : Sink) (types : List TypeDef) (ns : String) : Except ExportError Summary × Sink :=
  packInto sink types ns

end MethodPack.Export
