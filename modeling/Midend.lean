import Midend.Command.Folder
import Midend.Main
import Midend.Proofs.Arena
import Midend.Proofs.Codec
import Midend.Proofs.Compositional
import Midend.Proofs.Constants
import Midend.Proofs.Contract
import Midend.Proofs.Dispatch
import Midend.Proofs.Encoding
import Midend.Proofs.Independence
import Midend.Proofs.LifeCycle
import Midend.Proofs.Meaning
import Midend.Proofs.Messages
import Midend.Proofs.MissingReturn
import Midend.Proofs.Redeclared
import Midend.Proofs.ReportText
import Midend.Proofs.Reports
import Midend.Proofs.Resolution
import Midend.Proofs.Spelling
import Midend.Proofs.TypeText
import Midend.Proofs.WellTyped
import Midend.Proofs.WrittenType
