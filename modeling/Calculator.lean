import Calculator.Main
import Calculator.Proofs.Derivation.Building
import Calculator.Proofs.Grammar.Language
import Calculator.Proofs.Grammar.Prediction
import Calculator.Proofs.Expression
import Calculator.Proofs.Phrase
import Calculator.Proofs.Phrase.Postfix
import Calculator.Proofs.Phrase.Grouping
import Calculator.Proofs.Phrase.Uniqueness
import Calculator.Proofs.Derivation.Items
import Calculator.Proofs.Phrase.Derivation
import Calculator.Proofs.Line.Grouping
import Calculator.Proofs.Expression.Evaluation
import Calculator.Proofs.Machine
import Calculator.Proofs.Consistency.Reading
import Calculator.Proofs.Consistency.Running
import Calculator.Proofs.Line.Consistency
import Calculator.Proofs.Derivation.Prospect
import Calculator.Proofs.Derivation.Refusal
import Calculator.Proofs.Binary64.Sign
import Calculator.Proofs.Binary64.Value
import Calculator.Proofs.Binary64.Rounding
import Calculator.Proofs.Binary64.Whole
import Calculator.Proofs.Derivation.Arguments
import Calculator.Proofs.Derivation.Reading
import Calculator.Proofs.Exact
import Calculator.Proofs.Exact.Arithmetic
import Calculator.Proofs.Exact.Lockstep
import Calculator.Proofs.Item.Waiting
import Calculator.Proofs.Item.Balance
import Calculator.Proofs.Line.Calls
import Calculator.Proofs.Machine.Effect
import Calculator.Proofs.Machine.Discipline
import Calculator.Proofs.Machine.Mentioned
import Calculator.Proofs.Token.Spelling
import Calculator.Proofs.Phrase.Reading
import Calculator.Proofs.Expression.Printing
import Calculator.Proofs.Derivation.WellFormed
import Calculator.Proofs.Token.Longest
import Calculator.Proofs.Token.Scanning
import Calculator.Proofs.Token.Separation
import Calculator.Proofs.Derivation.Moving
import Calculator.Proofs.Line.Leading
import Calculator.Proofs.Session
import Calculator.Proofs.Command
import Calculator.Proofs.Item.Order
import Calculator.Proofs.Expression.Replacement
import Calculator.Proofs.Line.Numbers
import Calculator.Proofs.Derivation.Expressions
import Calculator.Proofs.Expression.Assignment
import Calculator.Proofs.Line.Expressions
import Calculator.Proofs.Line.Assignment
import Calculator.Proofs.Token.Joining
import Calculator.Proofs.Token.Literal
import Calculator.Proofs.Arithmetic.Power
import Calculator.Proofs.Arithmetic.Factorial
import Calculator.Proofs.Function.Root
import Calculator.Proofs.Arithmetic.Squaring
import Calculator.Proofs.Derivation.Passes
import Calculator.Proofs.Arithmetic.Division
import Calculator.Proofs.Derivation.Forest
