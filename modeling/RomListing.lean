import RomListing.Extension.Scripted
import RomListing.Main
import RomListing.Proofs.MemoryMap.Coalescing
import RomListing.Proofs.Pass.CrossReference
import RomListing.Proofs.Project.WholeImage
import RomListing.Proofs.Relocation.Cursor
import RomListing.Proofs.Relocation.Decoding
import RomListing.Proofs.Output.Edits
import RomListing.Proofs.Relocation.Conventions
import RomListing.Proofs.Relocation.Pass
import RomListing.Proofs.Machine.Independence
import RomListing.Proofs.Machine.Relocation
import RomListing.Proofs.Spectrum.Grammar
import RomListing.Proofs.Pass.Steps
import RomListing.Proofs.Spectrum.Refinement
import RomListing.Proofs.Tokens
import RomListing.Proofs.Output.Flags
import RomListing.Proofs.Pass.Orderly
import RomListing.Proofs.Machine.Rows
import RomListing.Proofs.Machine.Bytes
import RomListing.Proofs.Listing.Labels
import RomListing.Proofs.Machine.LabelFlags
import RomListing.Proofs.Display.Outline
import RomListing.Proofs.Project.LabelLines
import RomListing.Proofs.Display.Decoding
import RomListing.Proofs.Display.Conventions
import RomListing.Proofs.Display.Pass
import RomListing.Proofs.Machine.Display
import RomListing.Proofs.Pass.Junctions
import RomListing.Proofs.Pass.Progress
import RomListing.Proofs.Extension.Reading
import RomListing.Proofs.Extension.Progress
import RomListing.Proofs.Extension.Protocol
import RomListing.Proofs.Checked.Access
import RomListing.Proofs.Checked.Machines
import RomListing.Proofs.Checked.Pass
import RomListing.Proofs.Checked.Processors
import RomListing.Proofs.Machine.Safety
import RomListing.Proofs.Output.Log
import RomListing.Proofs.Project.Refusals
import RomListing.Proofs.Listing.Reading
import RomListing.Proofs.Pass.Everywhere
import RomListing.Proofs.Listing.Legible
import RomListing.Proofs.Pass.Partitions
import RomListing.Proofs.Project.Lossless
import RomListing.Proofs.Spectrum.Partitions
import RomListing.Proofs.Machine.Items
import RomListing.Proofs.Machine.Partitions
import RomListing.Proofs.Branches
import RomListing.Proofs.Pass.Contiguous
import RomListing.Proofs.Spectrum.ByteCode
import RomListing.Proofs.Spectrum.CustomRegion
import RomListing.Proofs.Z88.Grammar
import RomListing.Proofs.Z88.Refinement
import RomListing.Proofs.Listing.DataText
import RomListing.Proofs.Pass.DataParts
import RomListing.Proofs.Pass.Padding
import RomListing.Proofs.Mos6502.Wording
import RomListing.Proofs.Recovery
import RomListing.Proofs.MemoryMap.Overlay
import RomListing.Proofs.MemoryMap.Insertion
import RomListing.Proofs.Pass.Locality
import RomListing.Proofs.Extension.Idle
import RomListing.Proofs.Extended.Pass
import RomListing.Proofs.Spectrum.Literals
import RomListing.Proofs.Z88.Strings
import RomListing.Proofs.Project.JumpNames
import RomListing.Proofs.FinishedText
import RomListing.Proofs.Project.Numbers
import RomListing.Proofs.Cursor.Lookahead
import RomListing.Proofs.Leftovers
