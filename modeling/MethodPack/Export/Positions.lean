import Std.Data.HashMap
import MethodPack.Export.Error

/-! The positions of the instructions of one method by their labels. -/
namespace MethodPack.Export

open Packed (maxLength)

/-- The position of each label, counted from zero. -/
structure Positions where
  byLabel : Std.HashMap Label UInt32 := ∅

namespace Positions

/-- Numbers instructions from `position` on; a label that has a position already is
refused. `method` names the owner in errors. -/
def number (method : String) (p : Positions) (position : Nat) :
    List Instruction → Except ExportError Positions
  | [] => .ok p
  | i :: rest =>
    if p.byLabel.contains i.label then .error (.duplicateLabel method i.label)
    else number method ⟨p.byLabel.insert i.label position.toUInt32⟩ (position + 1) rest

/-- Numbers the instructions of a method in order. -/
def build (method : String) (body : List Instruction) : Except ExportError Positions :=
  if maxLength < body.length then .error (.tooManyInstructions method body.length)
  else number method {} 0 body

def position? (p : Positions) (label : Label) : Option UInt32 := p.byLabel[label]?

def size (p : Positions) : Nat := p.byLabel.size

def isEmpty (p : Positions) : Bool := p.byLabel.isEmpty

end Positions
end MethodPack.Export
