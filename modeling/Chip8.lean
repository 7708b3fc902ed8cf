import Chip8.Instruction.Encode
import Chip8.Journal
import Chip8.Main
import Chip8.Proofs.Session.Halt
import Chip8.Proofs.RunLoop.Interleaving
import Chip8.Proofs.RunLoop.Alone
import Chip8.Proofs.Session.Frames
import Chip8.Proofs.Session.Resume
import Chip8.Proofs.Instruction.Format
import Chip8.Proofs.Processor.CallStack
import Chip8.Proofs.Processor.KeyWait
import Chip8.Proofs.Processor.ControlFlow
import Chip8.Proofs.Processor.Outside
import Chip8.Proofs.Processor.Provenance
import Chip8.Proofs.Session.Reload
import Chip8.Proofs.Session.Adoption
import Chip8.Proofs.Moments
import Chip8.Proofs.Processor.Life
import Chip8.Proofs.Processor.LastExecuted
import Chip8.Proofs.Tokens
import Chip8.Proofs.RunLoop.Story
import Chip8.Proofs.RunLoop.Cancellation
import Chip8.Proofs.RunLoop.Keys
import Chip8.Proofs.Processor.Sprite
import Chip8.Proofs.Session.Glyphs
import Chip8.Proofs.Processor.Arithmetic
import Chip8.Proofs.Processor.Faults
import Chip8.Proofs.Processor.Drawings
import Chip8.Proofs.Processor.Transfer
import Chip8.Proofs.Instruction.Listing
import Chip8.Proofs.Picture
import Chip8.Proofs.RunLoop.Career
