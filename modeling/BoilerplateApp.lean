import BoilerplateApp.Proof.Approvals
import BoilerplateApp.Proof.Bounds
import BoilerplateApp.Proof.ClientCommands
import BoilerplateApp.Proof.ClientReader
import BoilerplateApp.Proof.Confirm
import BoilerplateApp.Proof.Cuts
import BoilerplateApp.Proof.Decisions
import BoilerplateApp.Proof.Encoders
import BoilerplateApp.Proof.EndToEnd
import BoilerplateApp.Proof.Faults
import BoilerplateApp.Proof.Interfaces
import BoilerplateApp.Proof.Interference
import BoilerplateApp.Proof.Memo
import BoilerplateApp.Proof.MemorySafety
import BoilerplateApp.Proof.OneReply
import BoilerplateApp.Proof.Protocol
import BoilerplateApp.Proof.Replies
import BoilerplateApp.Proof.RoundTrip
import BoilerplateApp.Proof.Secrecy
import BoilerplateApp.Proof.State
import BoilerplateApp.Proof.StatusWords
import BoilerplateApp.Proof.TwoParsers
