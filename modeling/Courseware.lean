import Courseware.Main
import Courseware.Proofs.Arrangement
import Courseware.Proofs.Capitals
import Courseware.Proofs.Choices
import Courseware.Proofs.Clashes
import Courseware.Proofs.Course
import Courseware.Proofs.Descriptor.Activities
import Courseware.Proofs.Descriptor.Cmi5
import Courseware.Proofs.Descriptor.Cmi5Reader
import Courseware.Proofs.Descriptor.RoundTrip
import Courseware.Proofs.Descriptor.ScormListing
import Courseware.Proofs.Descriptor.ScormReader
import Courseware.Proofs.Descriptor.ScormReferences
import Courseware.Proofs.Descriptor.TinCan
import Courseware.Proofs.Descriptor.TinCanReader
import Courseware.Proofs.Formats
import Courseware.Proofs.Markup.Scripts
import Courseware.Proofs.Package.Activities
import Courseware.Proofs.Package.AttributeReferences
import Courseware.Proofs.Package.Characters
import Courseware.Proofs.Package.Checks
import Courseware.Proofs.Package.Cmi5
import Courseware.Proofs.Package.Deletion
import Courseware.Proofs.Package.Dependence
import Courseware.Proofs.Package.Embedded
import Courseware.Proofs.Package.EmptyModules
import Courseware.Proofs.Package.EntryTimes
import Courseware.Proofs.Package.Envelope
import Courseware.Proofs.Package.Html5
import Courseware.Proofs.Package.Identifiers
import Courseware.Proofs.Package.Launchable
import Courseware.Proofs.Package.Layout
import Courseware.Proofs.Package.Limits
import Courseware.Proofs.Package.Listing
import Courseware.Proofs.Package.Locality
import Courseware.Proofs.Package.Missing
import Courseware.Proofs.Package.Navigation
import Courseware.Proofs.Package.Packing
import Courseware.Proofs.Package.PageParts
import Courseware.Proofs.Package.Pages
import Courseware.Proofs.Package.Reordering
import Courseware.Proofs.Package.Requirements
import Courseware.Proofs.Package.Resources
import Courseware.Proofs.Package.Scorm
import Courseware.Proofs.Package.Statements
import Courseware.Proofs.Package.Tabs
import Courseware.Proofs.Package.TextReferences
import Courseware.Proofs.Package.Verification
import Courseware.Proofs.Page.Faithful
import Courseware.Proofs.Page.Links
import Courseware.Proofs.Page.Parts
import Courseware.Proofs.Page.Resources
import Courseware.Proofs.Page.ScriptData
import Courseware.Proofs.Page.Tabs
import Courseware.Proofs.Reordering
import Courseware.Proofs.Script.Data
import Courseware.Proofs.Script.Filling
import Courseware.Proofs.Tags
import Courseware.Proofs.Text.Decoding
import Courseware.Proofs.Time.FileName
import Courseware.Proofs.Warnings
import Courseware.Proofs.Zip.Names
