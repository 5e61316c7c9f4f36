import MethodPack.Main
import MethodPack.Proofs.Operands
import MethodPack.Proofs.Truncation
import MethodPack.Proofs.Grammar
import MethodPack.Proofs.Growth
import MethodPack.Proofs.Sessions
import MethodPack.Proofs.MethodEffects
import MethodPack.Proofs.Numbering
import MethodPack.Proofs.Kinds
import MethodPack.Proofs.FullNames
import MethodPack.Proofs.Dependence
import MethodPack.Proofs.Appending
import MethodPack.Proofs.Disks
import MethodPack.Proofs.Limits
import MethodPack.Proofs.Publication
import MethodPack.Proofs.Spelling
import MethodPack.Proofs.Trees
import MethodPack.Proofs.Records
import MethodPack.Proofs.Canonical
import MethodPack.Proofs.Mnemonics
import MethodPack.Proofs.Recovery
import MethodPack.Proofs.Presentation
import MethodPack.Proofs.Variants
import MethodPack.Proofs.TypeReferences
import MethodPack.Proofs.Verdicts
import MethodPack.Proofs.ByteOrders
import MethodPack.Proofs.Positions
import MethodPack.Proofs.Interning
import MethodPack.Proofs.Members
import MethodPack.Proofs.Dumps
import MethodPack.Proofs.HeaderWords
