import Parley.Editor.Launch
import Parley.Main
import Parley.Proofs.Bus.Isolation
import Parley.Proofs.Bus.Reader
import Parley.Proofs.Bus.Shelves
import Parley.Proofs.Command.Candidates
import Parley.Proofs.Command.Indent
import Parley.Proofs.Command.Registration
import Parley.Proofs.Message.Encoding
import Parley.Proofs.Session.Consent
import Parley.Proofs.Session.Echo
import Parley.Proofs.Session.Engagement
import Parley.Proofs.Session.Interrupt
import Parley.Proofs.Session.Rest
import Parley.Proofs.Session.Service
import Parley.Proofs.Session.Shutdown
import Parley.Proofs.Settings.Change
import Parley.Proofs.Settings.Reset
import Parley.Proofs.Settings.Saved
import Parley.Proofs.Terminal.PrintedInOrder
import Parley.Proofs.Terminal.Responding
import Parley.Proofs.Terminal.Serving
import Parley.Proofs.Words.Boundary
import Parley.Proofs.Words.Joined
import Parley.Schedule.Waiter
import Parley.Session.FrontEnd
