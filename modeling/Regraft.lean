import Regraft.Files.Disk
import Regraft.Main
import Regraft.Proofs.Crlf.Extraction
import Regraft.Proofs.NormalForm
import Regraft.Proofs.Unmarked
import Regraft.Proofs.Splicing
import Regraft.Proofs.Entity.Lambda
import Regraft.Proofs.Entity.Receiver
import Regraft.Proofs.Entity.Balance
import Regraft.Proofs.Entity.LinesApart
import Regraft.Proofs.CallLines
import Regraft.Proofs.Rerun
import Regraft.Proofs.Banner
import Regraft.Proofs.Files.Effect
import Regraft.Proofs.Files.Merging
import Regraft.Proofs.CommandLine.Context
import Regraft.Proofs.Comparison
import Regraft.Proofs.Files.Comparing
import Regraft.Proofs.Unpaired
import Regraft.Proofs.BannerLines
import Regraft.Proofs.Declaration
import Regraft.Proofs.OwnBlock
import Regraft.Proofs.Dyck
import Regraft.Proofs.Property.Patch
import Regraft.Proofs.Text.Squeeze
import Regraft.Proofs.Property.Grammar
import Regraft.Proofs.Property.Spelling
import Regraft.Proofs.Settings
