import MethodPack.Export.Error

/-! The table of blobs. Every blob gets a place of its own, equal blobs too. -/
namespace MethodPack.Export

open Packed (BlobId TableId maxLength)

/-- Blobs in the order of their places. -/
structure BlobTable where
  entries : Array (List UInt8) := #[]
  size_le : entries.size ≤ maxLength := by decide

namespace BlobTable

/-- The table without blobs. -/
def empty : BlobTable := {}

instance : Inhabited BlobTable := ⟨empty⟩

def size (t : BlobTable) : Nat := t.entries.size

def isEmpty (t : BlobTable) : Bool := t.entries.isEmpty

/-- The blob at a place. -/
def get? (t : BlobTable) (id : BlobId) : Option (List UInt8) := t.entries[id.position]?

/-- Appends a blob: its place, which is the size of the table afterwards, and the table. A
full table refuses the blob and stays as it is. -/
def push (t : BlobTable) (blob : List UInt8) : Except ExportError BlobId × BlobTable :=
  match t with
  | ⟨entries, le⟩ =>
    let position := entries.size
    if room : position < maxLength then
      (.ok (.atPosition position (by simp only [maxLength] at room; omega)),
        ⟨entries.push blob, by rw [Array.size_push]; exact room⟩)
    else (.error (.tooManyBlobs (position + 1)), ⟨entries, le⟩)

end BlobTable
end MethodPack.Export
