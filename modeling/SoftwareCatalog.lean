import SoftwareCatalog.Component.Agreement
import SoftwareCatalog.Component.Basic
import SoftwareCatalog.Component.Bundle
import SoftwareCatalog.Component.Collection
import SoftwareCatalog.Component.ContentRating
import SoftwareCatalog.Component.Fault
import SoftwareCatalog.Component.Flag
import SoftwareCatalog.Component.Format
import SoftwareCatalog.Component.Hallmark
import SoftwareCatalog.Component.Icon
import SoftwareCatalog.Component.Kind
import SoftwareCatalog.Component.Launchable
import SoftwareCatalog.Component.Locale
import SoftwareCatalog.Component.MessageDomain
import SoftwareCatalog.Component.Pooled
import SoftwareCatalog.Component.Provide
import SoftwareCatalog.Component.Release
import SoftwareCatalog.Component.Require
import SoftwareCatalog.Component.Review
import SoftwareCatalog.Component.Screenshot
import SoftwareCatalog.Component.Subsume
import SoftwareCatalog.Component.Suggest
import SoftwareCatalog.Component.UniqueId
import SoftwareCatalog.Component.Validation
import SoftwareCatalog.Component.Word
import SoftwareCatalog.Error
import SoftwareCatalog.FileTree
import SoftwareCatalog.Locations
import SoftwareCatalog.Notifier
import SoftwareCatalog.Path
import SoftwareCatalog.Pool
import SoftwareCatalog.Proofs.Component.Absorption
import SoftwareCatalog.Proofs.Component.Addon
import SoftwareCatalog.Proofs.Component.Attribute
import SoftwareCatalog.Proofs.Component.Built
import SoftwareCatalog.Proofs.Component.CanonicalId
import SoftwareCatalog.Proofs.Component.Collection
import SoftwareCatalog.Proofs.Component.Enrichment
import SoftwareCatalog.Proofs.Component.FirstCome
import SoftwareCatalog.Proofs.Component.Grouping
import SoftwareCatalog.Proofs.Component.Identity
import SoftwareCatalog.Proofs.Component.Joined
import SoftwareCatalog.Proofs.Component.Precedence
import SoftwareCatalog.Proofs.Component.Reconcile
import SoftwareCatalog.Proofs.Component.Release
import SoftwareCatalog.Proofs.Component.Repetition
import SoftwareCatalog.Proofs.Component.Replacement
import SoftwareCatalog.Proofs.Component.Ruling
import SoftwareCatalog.Proofs.Component.Sharing
import SoftwareCatalog.Proofs.Component.SourceEntries
import SoftwareCatalog.Proofs.Component.Texts
import SoftwareCatalog.Proofs.Component.Tidy
import SoftwareCatalog.Proofs.Component.UniqueId
import SoftwareCatalog.Proofs.Component.Unrepeated
import SoftwareCatalog.Proofs.Component.Wildcards
import SoftwareCatalog.Proofs.FileTree
import SoftwareCatalog.Proofs.Notifier
import SoftwareCatalog.Proofs.Pool
import SoftwareCatalog.Proofs.Search.ExactHits
import SoftwareCatalog.Proofs.Search.Markup
import SoftwareCatalog.Proofs.Search.OwnTexts
import SoftwareCatalog.Proofs.Search.Ranking
import SoftwareCatalog.Proofs.Search.TokenCache
import SoftwareCatalog.Proofs.Search.TokenUnion
import SoftwareCatalog.Proofs.Search.WordCount
import SoftwareCatalog.Proofs.Search.Words
import SoftwareCatalog.Proofs.Settings.Locales
import SoftwareCatalog.Proofs.Source.Extending
import SoftwareCatalog.Proofs.Source.Padding
import SoftwareCatalog.Proofs.Source.Reading
import SoftwareCatalog.Proofs.Source.Stamped
import SoftwareCatalog.Proofs.Store.Accounting
import SoftwareCatalog.Proofs.Store.AddonSupport
import SoftwareCatalog.Proofs.Store.Announcement
import SoftwareCatalog.Proofs.Store.Attachment
import SoftwareCatalog.Proofs.Store.BatchRemoval
import SoftwareCatalog.Proofs.Store.Conjunction
import SoftwareCatalog.Proofs.Store.Contribution
import SoftwareCatalog.Proofs.Store.Course
import SoftwareCatalog.Proofs.Store.Covering
import SoftwareCatalog.Proofs.Store.DirectoryChange
import SoftwareCatalog.Proofs.Store.Effect
import SoftwareCatalog.Proofs.Store.Encounter
import SoftwareCatalog.Proofs.Store.Entries
import SoftwareCatalog.Proofs.Store.EqualPriority
import SoftwareCatalog.Proofs.Store.Freshness
import SoftwareCatalog.Proofs.Store.Gathering
import SoftwareCatalog.Proofs.Store.Identity
import SoftwareCatalog.Proofs.Store.IdentityRemoval
import SoftwareCatalog.Proofs.Store.Inheritance
import SoftwareCatalog.Proofs.Store.InsertionOrder
import SoftwareCatalog.Proofs.Store.Intake
import SoftwareCatalog.Proofs.Store.Lasting
import SoftwareCatalog.Proofs.Store.MetadataQuery
import SoftwareCatalog.Proofs.Store.Mirror
import SoftwareCatalog.Proofs.Store.Move
import SoftwareCatalog.Proofs.Store.Operation
import SoftwareCatalog.Proofs.Store.Orphans
import SoftwareCatalog.Proofs.Store.PatchOrder
import SoftwareCatalog.Proofs.Store.PatchQueue
import SoftwareCatalog.Proofs.Store.Patching
import SoftwareCatalog.Proofs.Store.PathRemoval
import SoftwareCatalog.Proofs.Store.PkgnameIndex
import SoftwareCatalog.Proofs.Store.PkgnameQuery
import SoftwareCatalog.Proofs.Store.PkgnameSteps
import SoftwareCatalog.Proofs.Store.PrimaryIndex
import SoftwareCatalog.Proofs.Store.PriorityOrder
import SoftwareCatalog.Proofs.Store.Reattachment
import SoftwareCatalog.Proofs.Store.Removal
import SoftwareCatalog.Proofs.Store.Reordering
import SoftwareCatalog.Proofs.Store.Repetition
import SoftwareCatalog.Proofs.Store.SameCatalog
import SoftwareCatalog.Proofs.Store.SearchTokens
import SoftwareCatalog.Proofs.Store.Shift
import SoftwareCatalog.Proofs.Store.Sole
import SoftwareCatalog.Proofs.Store.SourceCalls
import SoftwareCatalog.Proofs.Store.SourceRemoval
import SoftwareCatalog.Proofs.Store.Sparse
import SoftwareCatalog.Proofs.Store.Stages
import SoftwareCatalog.Proofs.Store.Step
import SoftwareCatalog.Proofs.Store.Survival
import SoftwareCatalog.Proofs.Store.UniqueIdIndex
import SoftwareCatalog.Proofs.Store.UniqueIdQuery
import SoftwareCatalog.Proofs.Store.WildcardQuery
import SoftwareCatalog.Proofs.Text.Fields
import SoftwareCatalog.Proofs.Text.Lines
import SoftwareCatalog.Proofs.Text.Lowercase
import SoftwareCatalog.Proofs.Text.Trim
import SoftwareCatalog.Proofs.TextMap
import SoftwareCatalog.Proofs.WatchTable
import SoftwareCatalog.Proofs.Xml.Content
import SoftwareCatalog.Proofs.Xml.Escape
import SoftwareCatalog.Proofs.Xml.Legible
import SoftwareCatalog.Proofs.Xml.Rereading
import SoftwareCatalog.Search.Indexing
import SoftwareCatalog.Search.Ranking
import SoftwareCatalog.Search.Stem
import SoftwareCatalog.Search.TokenCache
import SoftwareCatalog.Search.Words
import SoftwareCatalog.Settings.Basic
import SoftwareCatalog.Settings.Document
import SoftwareCatalog.Settings.Locales
import SoftwareCatalog.Source.Dep11
import SoftwareCatalog.Source.DesktopEntry
import SoftwareCatalog.Source.Info
import SoftwareCatalog.Source.Metainfo
import SoftwareCatalog.Source.Reader
import SoftwareCatalog.Store.Add
import SoftwareCatalog.Store.Basic
import SoftwareCatalog.Store.Change
import SoftwareCatalog.Store.Load
import SoftwareCatalog.Store.Query
import SoftwareCatalog.Store.Reconcile
import SoftwareCatalog.Store.Record
import SoftwareCatalog.Store.Remove
import SoftwareCatalog.Store.Search
import SoftwareCatalog.Text.Binary64
import SoftwareCatalog.Text.Blank
import SoftwareCatalog.Text.CaseTable
import SoftwareCatalog.Text.Fields
import SoftwareCatalog.Text.Lowercase
import SoftwareCatalog.Text.Number
import SoftwareCatalog.TextMap
import SoftwareCatalog.Toml.Document
import SoftwareCatalog.Toml.Moment
import SoftwareCatalog.Toml.Table
import SoftwareCatalog.Toml.Text
import SoftwareCatalog.WatchTable
import SoftwareCatalog.Xml.Escape
import SoftwareCatalog.Xml.Node
import SoftwareCatalog.Xml.Token
import SoftwareCatalog.Yaml.Glyph
import SoftwareCatalog.Yaml.Node
import SoftwareCatalog.Yaml.Scalar
import SoftwareCatalog.Yaml.Token
import SoftwareCatalog.Yaml.Value
