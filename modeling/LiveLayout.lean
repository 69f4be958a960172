import LiveLayout.TweakStore
import LiveLayout.Proofs.Ancestry
import LiveLayout.Proofs.Operations
import LiveLayout.Proofs.Installation
import LiveLayout.Proofs.Edits
import LiveLayout.Proofs.Sessions
import LiveLayout.Proofs.Upkeep
import LiveLayout.Proofs.Refusals
import LiveLayout.Proofs.SnapshotAddresses
import LiveLayout.Proofs.Baselines
import LiveLayout.Proofs.PackedData
import LiveLayout.Proofs.SnapshotCodec
import LiveLayout.Proofs.Numerals
import LiveLayout.Proofs.JsonText
import LiveLayout.Proofs.Transmission
import LiveLayout.Proofs.Replacement
import LiveLayout.Proofs.Expressions
import LiveLayout.Proofs.Documents
import LiveLayout.Proofs.Reencoding
import LiveLayout.Proofs.LastWriter
import LiveLayout.Proofs.Repetition
import LiveLayout.Proofs.Settings
import LiveLayout.Proofs.Appearance
import LiveLayout.Proofs.Idempotence
import LiveLayout.Proofs.Pictures
import LiveLayout.Proofs.DeferredImages
import LiveLayout.Proofs.BareInserts
import LiveLayout.Proofs.Addressing
import LiveLayout.Proofs.Reporting
import LiveLayout.Proofs.InsertedDescriptions
import LiveLayout.Proofs.Footprints
import LiveLayout.Proofs.Mirrors
import LiveLayout.Proofs.Commutation
import LiveLayout.Proofs.Growth
import LiveLayout.Proofs.Outcomes
import LiveLayout.Proofs.StaleIndices
import LiveLayout.Proofs.Lookups
import LiveLayout.Proofs.Legality
import LiveLayout.Proofs.Consultation
import LiveLayout.Proofs.LineageSearch
import LiveLayout.Proofs.CommonAncestors
import LiveLayout.Proofs.Admission
import LiveLayout.Proofs.Takeover
import LiveLayout.Proofs.DescriptionLists
import LiveLayout.Proofs.SlotReuse
import LiveLayout.Proofs.FrameAssignment
import LiveLayout.Proofs.Rounding
import LiveLayout.Proofs.Wording
import LiveLayout.Proofs.FiniteConstants
import LiveLayout.Proofs.HexColors
import LiveLayout.Proofs.KeyOrder
import LiveLayout.Proofs.TextReadings
import LiveLayout.Proofs.IntegerAttributes
