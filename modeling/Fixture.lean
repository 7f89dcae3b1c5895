import Fixture.Host.Memory
import Fixture.Main
import Fixture.Proofs.CommandLine.Creating
import Fixture.Proofs.CommandLine.Saving
import Fixture.Proofs.CommandLine.Unknown
import Fixture.Proofs.Draft.Commuting
import Fixture.Proofs.Editor.Reconcile
import Fixture.Proofs.Editor.Rooted
import Fixture.Proofs.Parameter.Neighbours
import Fixture.Proofs.Session.Agreement
import Fixture.Proofs.Session.Closing
import Fixture.Proofs.Session.Discard
import Fixture.Proofs.Session.InPlace
import Fixture.Proofs.Session.NestedEdit
import Fixture.Proofs.Session.Path
import Fixture.Proofs.Session.Payloads
import Fixture.Proofs.Session.Selection
import Fixture.Proofs.Session.Slots
import Fixture.Proofs.Session.Trees
import Fixture.Proofs.Session.TypedKey
import Fixture.Proofs.Store.Confined
import Fixture.Proofs.Store.Listing
import Fixture.Proofs.Store.Refinement
