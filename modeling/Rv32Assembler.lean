import Rv32Assembler.Main
import Rv32Assembler.Proofs.Journal
import Rv32Assembler.Proofs.Log
import Rv32Assembler.Proofs.Memory
import Rv32Assembler.Proofs.Step
import Rv32Assembler.Proofs.Decimal
import Rv32Assembler.Proofs.Displacement
import Rv32Assembler.Proofs.TwoPass
import Rv32Assembler.Proofs.Decoding
import Rv32Assembler.Proofs.Filling
import Rv32Assembler.Proofs.Parsing
import Rv32Assembler.Proofs.Relocation
import Rv32Assembler.Proofs.Disassembly
import Rv32Assembler.Proofs.Expansion
import Rv32Assembler.Proofs.LabelPlacement
import Rv32Assembler.Proofs.Reservations
import Rv32Assembler.Proofs.Nesting
import Rv32Assembler.Proofs.Guard
import Rv32Assembler.Proofs.InternalLabels
import Rv32Assembler.Proofs.Pasting
import Rv32Assembler.Proofs.LoadSegments
import Rv32Assembler.Proofs.ErrorLimit
import Rv32Assembler.Proofs.NoFault
import Rv32Assembler.Proofs.InertLines
import Rv32Assembler.Proofs.Thinning
import Rv32Assembler.Proofs.Padding
import Rv32Assembler.Proofs.ElfReading
import Rv32Assembler.Proofs.IntelHexReading
import Rv32Assembler.Proofs.Promotion
import Rv32Assembler.Proofs.EquivalenceLines
import Rv32Assembler.Proofs.Alignment
import Rv32Assembler.Proofs.IntegerData
import Rv32Assembler.Proofs.StringData
import Rv32Assembler.Proofs.LexemeEnds
import Rv32Assembler.Proofs.Phrases
import Rv32Assembler.Proofs.Respelling
import Rv32Assembler.Proofs.Replacement
import Rv32Assembler.Proofs.DefinitionOrder
import Rv32Assembler.Proofs.Partition
import Rv32Assembler.Proofs.Printing
import Rv32Assembler.Proofs.Inclusion
import Rv32Assembler.Proofs.MissingSymbols
import Rv32Assembler.Proofs.Unresolved
import Rv32Assembler.Proofs.ReadBack
import Rv32Assembler.Proofs.Hygiene
import Rv32Assembler.Proofs.IntegerLiterals
import Rv32Assembler.Proofs.CharacterLiterals
import Rv32Assembler.Proofs.Doublewords
import Rv32Assembler.Proofs.Confinement
import Rv32Assembler.Proofs.Selection
import Rv32Assembler.Proofs.OfferedMessages
import Rv32Assembler.Proofs.DumpRecords
import Rv32Assembler.Proofs.CapturedMacros
import Rv32Assembler.Proofs.LiteralEnds
