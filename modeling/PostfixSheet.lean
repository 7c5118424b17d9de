import PostfixSheet.Decimal.Packing
import PostfixSheet.Dependency
import PostfixSheet.Direct
import PostfixSheet.Folder
import PostfixSheet.History
import PostfixSheet.Main
import PostfixSheet.Tree
import PostfixSheet.Proofs.Accounting
import PostfixSheet.Proofs.Balance
import PostfixSheet.Proofs.Building
import PostfixSheet.Proofs.Circles
import PostfixSheet.Proofs.Consistency
import PostfixSheet.Proofs.Delivery
import PostfixSheet.Proofs.Descent
import PostfixSheet.Proofs.Directness
import PostfixSheet.Proofs.Failure
import PostfixSheet.Proofs.Filling
import PostfixSheet.Proofs.FirstFault
import PostfixSheet.Proofs.Grammar
import PostfixSheet.Proofs.Leftovers
import PostfixSheet.Proofs.Lifecycle
import PostfixSheet.Proofs.LineEnds
import PostfixSheet.Proofs.Lookups
import PostfixSheet.Proofs.Machine
import PostfixSheet.Proofs.Mirroring
import PostfixSheet.Proofs.Moving
import PostfixSheet.Proofs.Order
import PostfixSheet.Proofs.Parsing
import PostfixSheet.Proofs.Reading
import PostfixSheet.Proofs.Refusal
import PostfixSheet.Proofs.Reprinting
import PostfixSheet.Proofs.Rereading
import PostfixSheet.Proofs.Respelling
import PostfixSheet.Proofs.Retry
import PostfixSheet.Proofs.Seniority
import PostfixSheet.Proofs.Sharing
import PostfixSheet.Proofs.Spellings
import PostfixSheet.Proofs.Success
import PostfixSheet.Proofs.Trails
