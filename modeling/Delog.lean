import Delog.Proofs.Config.Accept
import Delog.Proofs.File.Account
import Delog.Proofs.File.DryRun
import Delog.Proofs.File.Interference
import Delog.Proofs.File.Rewrite
import Delog.Proofs.Logging.Comments
import Delog.Proofs.Logging.Continuation
import Delog.Proofs.Logging.Names
import Delog.Proofs.Logging.Partition
import Delog.Proofs.Removal.AtOnce
import Delog.Proofs.Removal.NormalForm
import Delog.Proofs.Removal.Order
import Delog.Proofs.Removal.Pass
import Delog.Proofs.Removal.Reach
import Delog.Proofs.Removal.Untouched
import Delog.Proofs.Strip.Faults
import Delog.Proofs.Strip.Frame
import Delog.Proofs.Strip.Literal
import Delog.Proofs.Strip.Safety
import Delog.Tree.Outline
import Delog.Proofs.Directory.Folder
import Delog.Proofs.Directory.Disk
