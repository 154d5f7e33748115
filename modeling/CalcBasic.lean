import CalcBasic.Text.Lines
import CalcBasic.Main
import CalcBasic.Proofs.FoldingSize
import CalcBasic.Proofs.UseCounts
import CalcBasic.Proofs.CheckedPrograms
import CalcBasic.Proofs.SameProgram
import CalcBasic.Proofs.Restoration
import CalcBasic.Proofs.OverflowList
import CalcBasic.Proofs.AssignedTypes
import CalcBasic.Proofs.ReportedLines
import CalcBasic.Proofs.AdjacentFactors
import CalcBasic.Proofs.LiteralSigns
import CalcBasic.Proofs.LoneConditionals
import CalcBasic.Proofs.TokenLines
import CalcBasic.Proofs.ExactRemainders
import CalcBasic.Proofs.OmittedClosers
import CalcBasic.Proofs.DefinitionOrder
import CalcBasic.Proofs.PartialFolding
import CalcBasic.Proofs.FailedFolds
import CalcBasic.Proofs.RangeValues
import CalcBasic.Proofs.SlotOrder
import CalcBasic.Proofs.SourceNumerals
import CalcBasic.Proofs.MatchedBrackets
import CalcBasic.Proofs.DrawnPaths
