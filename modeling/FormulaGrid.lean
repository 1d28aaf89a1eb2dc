import FormulaGrid.Numeral
import FormulaGrid.Address.Basic
import FormulaGrid.Address.Parse
import FormulaGrid.Fault
import FormulaGrid.Operator
import FormulaGrid.Decimal.Basic
import FormulaGrid.Decimal.Binary64
import FormulaGrid.Decimal.Shortest
import FormulaGrid.Number
import FormulaGrid.Token.Basic
import FormulaGrid.Token.Scan
import FormulaGrid.Token.ReversePolish
import FormulaGrid.Variables
import FormulaGrid.Expr.Basic
import FormulaGrid.Expr.Evaluation
import FormulaGrid.Formula
import FormulaGrid.Place
import FormulaGrid.Cascade
import FormulaGrid.Sheet.Cell
import FormulaGrid.Sheet.Basic
import FormulaGrid.Sheet.Links
import FormulaGrid.Sheet.Content
import FormulaGrid.Sheet.Recalculation
import FormulaGrid.Sheet.Records
import FormulaGrid.Sheet.Calls
import FormulaGrid.Storage
import FormulaGrid.Proofs.CascadeOrder
import FormulaGrid.Proofs.CascadeRefusal
import FormulaGrid.Proofs.SheetLinks
import FormulaGrid.Proofs.Evaluation
import FormulaGrid.Proofs.Recalculation
import FormulaGrid.Proofs.Session
import FormulaGrid.Proofs.Confinement
import FormulaGrid.Proofs.Updates
import FormulaGrid.Proofs.FromScratch
import FormulaGrid.Proofs.Grammar
import FormulaGrid.Proofs.Yard
import FormulaGrid.Proofs.Parsing
import FormulaGrid.Proofs.FailedEdits
import FormulaGrid.Proofs.CycleVerdicts
import FormulaGrid.Proofs.LinkHistory
import FormulaGrid.Proofs.OperandOrder
import FormulaGrid.Proofs.Assignments
import FormulaGrid.Proofs.Occupied
import FormulaGrid.Proofs.UpToDate
import FormulaGrid.Proofs.Undo
import FormulaGrid.Proofs.Pruning
import FormulaGrid.Proofs.Reload
import FormulaGrid.Proofs.Locality
import FormulaGrid.Proofs.CascadeDepth
import FormulaGrid.Proofs.DepthVerdicts
import FormulaGrid.Proofs.ReloadDepth
import FormulaGrid.Proofs.Scanning
import FormulaGrid.Proofs.Building
import FormulaGrid.Proofs.Acceptance
import FormulaGrid.Proofs.Repetition
import FormulaGrid.Proofs.Postorder
import FormulaGrid.Proofs.FaultOrigins
import FormulaGrid.Proofs.LeftmostSlot
import FormulaGrid.Proofs.LeftmostFault
import FormulaGrid.Proofs.YardStack
import FormulaGrid.Proofs.OutputOrder
import FormulaGrid.Proofs.Fragments
import FormulaGrid.Proofs.CellNames
import FormulaGrid.Proofs.Names
import FormulaGrid.Proofs.CascadeTurns
import FormulaGrid.Proofs.VariableTable
import FormulaGrid.Proofs.StorageAccess
import FormulaGrid.Proofs.StorageRuns
import FormulaGrid.Proofs.StorageHistory
