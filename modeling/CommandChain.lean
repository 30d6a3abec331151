import CommandChain.Session
import CommandChain.World.Lethal
import CommandChain.World.Recording
import CommandChain.Proofs.Walk.Driven
import CommandChain.Proofs.World.History
import CommandChain.Proofs.Selector.Marker
import CommandChain.Proofs.Selector.Shuffled
import CommandChain.Proofs.Chain.Concat
import CommandChain.Proofs.Host.Order
import CommandChain.Proofs.World.Undisturbed
import CommandChain.Proofs.Walk.Turn
import CommandChain.Proofs.Walk.Collected
import CommandChain.Proofs.Walk.Drawing
import CommandChain.Proofs.Entity.History
import CommandChain.Proofs.World.Removed
import CommandChain.Proofs.World.Dimensions
import CommandChain.Proofs.Chain.Failure
import CommandChain.Proofs.World.Failure
import CommandChain.Proofs.Selector.Nearest
import CommandChain.Proofs.Subcommand.Executor
import CommandChain.Proofs.Chain.Single
import CommandChain.Proofs.Selector.Rules
import CommandChain.Proofs.Value.Loosened
import CommandChain.Proofs.Coordinate.ReadBack
import CommandChain.Proofs.Value.Token
import CommandChain.Proofs.Block.ReadBack
import CommandChain.Proofs.Selector.Prefix
import CommandChain.Proofs.Score.Range
import CommandChain.Proofs.World.Conjunction
import CommandChain.Proofs.Walk.Stream
import CommandChain.Proofs.Chain.Aspects
import CommandChain.Proofs.Chain.Guards
import CommandChain.Proofs.World.Refusal
import CommandChain.Proofs.Scanner.Boundary
import CommandChain.Proofs.Scanner.Longest
import CommandChain.Proofs.Walk.Stack
import CommandChain.Proofs.Selector.Progress
