import StoneBoard.Main
import StoneBoard.Proofs.Lockstep
import StoneBoard.Proofs.TagChecks
import StoneBoard.Proofs.JoinedTexts
import StoneBoard.Proofs.Lookahead
import StoneBoard.Proofs.RoundTrip
import StoneBoard.Proofs.ImportGraph
import StoneBoard.Proofs.MessageLines
import StoneBoard.Proofs.Polling
import StoneBoard.Proofs.Prelude
import StoneBoard.Proofs.BoardCounts
import StoneBoard.Proofs.Spelling
import StoneBoard.Proofs.LoopRange
import StoneBoard.Proofs.Reuse
import StoneBoard.Proofs.DefinitionOrder
import StoneBoard.Proofs.ErrorChains
import StoneBoard.Proofs.RisingTypes
import StoneBoard.Proofs.TypeOrder
import StoneBoard.Proofs.Backtraces
import StoneBoard.Proofs.Division
import StoneBoard.Proofs.Comparison
import StoneBoard.Proofs.BuiltinCalls
import StoneBoard.Proofs.Dialogue
