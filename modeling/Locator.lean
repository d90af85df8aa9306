import Locator.Chain
import Locator.Clock
import Locator.Json.Printer
import Locator.Json.Reader
import Locator.Main
import Locator.Marks
import Locator.Proofs.Accepting
import Locator.Proofs.Asking
import Locator.Proofs.CachedRoots
import Locator.Proofs.Chains
import Locator.Proofs.Commitment
import Locator.Proofs.Conjunction
import Locator.Proofs.Containing
import Locator.Proofs.Counterparts
import Locator.Proofs.Counting
import Locator.Proofs.Decimals
import Locator.Proofs.DirectChildren
import Locator.Proofs.DocumentOrder
import Locator.Proofs.Dominance
import Locator.Proofs.EarlierElements
import Locator.Proofs.Excursions
import Locator.Proofs.FirstMatch
import Locator.Proofs.Histories
import Locator.Proofs.Identifying
import Locator.Proofs.Independence
import Locator.Proofs.Interruption
import Locator.Proofs.JoinedLevels
import Locator.Proofs.JsonTexts
import Locator.Proofs.Judging
import Locator.Proofs.Lineages
import Locator.Proofs.LinearPasses
import Locator.Proofs.Ordinals
import Locator.Proofs.Pacing
import Locator.Proofs.Places
import Locator.Proofs.Polling
import Locator.Proofs.QualifierOrder
import Locator.Proofs.Ranks
import Locator.Proofs.Reaching
import Locator.Proofs.Refusing
import Locator.Proofs.Remembering
import Locator.Proofs.Rendering
import Locator.Proofs.Repeating
import Locator.Proofs.Requests
import Locator.Proofs.Resolving
import Locator.Proofs.Returning
import Locator.Proofs.SavedSettings
import Locator.Proofs.Scanning
import Locator.Proofs.Selecting
import Locator.Proofs.Sentinels
import Locator.Proofs.SharedTypes
import Locator.Proofs.Siblings
import Locator.Proofs.SinglePasses
import Locator.Proofs.SnapshotTexts
import Locator.Proofs.Soundness
import Locator.Proofs.Spellings
import Locator.Proofs.StillTree
import Locator.Proofs.Texts
import Locator.Proofs.TomlStrings
import Locator.Proofs.TomlTexts
import Locator.Proofs.TwoWays
import Locator.Proofs.Views
import Locator.Proofs.VisitLog
import Locator.Proofs.Waiting
import Locator.Report
import Locator.Session
import Locator.Settings.Toml
import Locator.Snapshot.Draft
import Locator.Snapshot.Json
import Locator.Snapshot.World
