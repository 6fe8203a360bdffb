import DiceNotation.Result.OfDocument
import DiceNotation.Result.ToDocument
import DiceNotation.Roll.Session
import DiceNotation.Settings.Precedence
import DiceNotation.Proofs.Decimal.Value
import DiceNotation.Proofs.Roll.Draws
import DiceNotation.Proofs.Dice.Replay
import DiceNotation.Proofs.Roll.Replay
import DiceNotation.Proofs.Command.Build
import DiceNotation.Proofs.Grammar.Pattern
import DiceNotation.Proofs.Grammar.Rules
import DiceNotation.Proofs.Grammar.Derivation
import DiceNotation.Proofs.Grammar.Run
import DiceNotation.Proofs.Grammar.Split
import DiceNotation.Proofs.Grammar.Acceptance
import DiceNotation.Proofs.Grammar.Viable
import DiceNotation.Proofs.Grammar.Diagnostics
import DiceNotation.Proofs.Except
import DiceNotation.Proofs.Command.WellFormed
import DiceNotation.Proofs.Decimal.Rounding
import DiceNotation.Proofs.Decimal.Cents
import DiceNotation.Proofs.Decimal.Exact
import DiceNotation.Proofs.Dice.Completion
import DiceNotation.Proofs.Roll.Reference
import DiceNotation.Proofs.Roll.History
import DiceNotation.Proofs.Grammar.Colon
import DiceNotation.Proofs.Command.Reason
import DiceNotation.Proofs.Command.Slices
import DiceNotation.Proofs.Decimal.Text
import DiceNotation.Proofs.Result.Edits
import DiceNotation.Proofs.Result.Loading
import DiceNotation.Proofs.Command.Writing
import DiceNotation.Proofs.Roll.InTurn
import DiceNotation.Proofs.Decimal.Sums
import DiceNotation.Proofs.Roll.CombinedTotal
import DiceNotation.Proofs.Dice.Count
import DiceNotation.Proofs.Result.Rendering
import DiceNotation.Proofs.Roll.Safety
import DiceNotation.Proofs.Dice.Errors
import DiceNotation.Proofs.Roll.LeftToRight
import DiceNotation.Proofs.Command.Limits
import DiceNotation.Proofs.Command.Numerals
import DiceNotation.Proofs.Decimal.Outcome
import DiceNotation.Proofs.Roll.Ending
import DiceNotation.Proofs.Dice.Chains
import DiceNotation.Proofs.Dice.Rerolls
import DiceNotation.Proofs.Dice.Explosions
import DiceNotation.Proofs.Dice.Selection
import DiceNotation.Proofs.Dice.Ledger
import DiceNotation.Proofs.Dice.OrderStatistics
import DiceNotation.Proofs.Dice.Rewriting
import DiceNotation.Proofs.Roll.Account
import DiceNotation.Proofs.Dice.DrawCap
import DiceNotation.Proofs.Roll.DrawCap
import DiceNotation.Proofs.Roll.Successes
import DiceNotation.Proofs.Dice.HigherFaces
import DiceNotation.Proofs.Command.ZeroThresholds
import DiceNotation.Proofs.Roll.NormalForm
import DiceNotation.Proofs.Result.Faithful
