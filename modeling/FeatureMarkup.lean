import FeatureMarkup.Batch.Documents
import FeatureMarkup.Proofs.Reader.Completeness
import FeatureMarkup.Proofs.Reader.References
import FeatureMarkup.Proofs.Reader.Reports
import FeatureMarkup.Proofs.Reader.Validity
import FeatureMarkup.Proofs.Schema.Ancestry
import FeatureMarkup.Proofs.Schema.Grammar
import FeatureMarkup.Proofs.Schema.Groups
import FeatureMarkup.Proofs.Schema.Limits
import FeatureMarkup.Proofs.Schema.Verdicts
import FeatureMarkup.Proofs.Reader.Making
import FeatureMarkup.Proofs.Reader.Limits
import FeatureMarkup.Proofs.Reference.Standing
import FeatureMarkup.Proofs.Reference.History
import FeatureMarkup.Proofs.Reader.Targets
import FeatureMarkup.Proofs.Reader.Strictness
import FeatureMarkup.Proofs.Geometry.CutOff
import FeatureMarkup.Proofs.Geometry.Systems
import FeatureMarkup.Proofs.Cursor.LastEvent
import FeatureMarkup.Proofs.Reader.Captured
import FeatureMarkup.Proofs.Reader.Alike
import FeatureMarkup.Proofs.Markup.Closing
import FeatureMarkup.Proofs.Reader.Lossless
import FeatureMarkup.Proofs.Geometry.Exactness
import FeatureMarkup.Proofs.Geometry.Dimensions
import FeatureMarkup.Proofs.Reader.Wrapping
import FeatureMarkup.Proofs.Reader.Systems
import FeatureMarkup.Proofs.Schema.Counting
import FeatureMarkup.Proofs.Text.Utf8
import FeatureMarkup.Proofs.Batch.Collection
import FeatureMarkup.Proofs.Batch.Archives
import FeatureMarkup.Proofs.Cursor.Halting
import FeatureMarkup.Proofs.Reference.Extension
import FeatureMarkup.Proofs.Reader.Sharing
import FeatureMarkup.Proofs.Cursor.Calls
import FeatureMarkup.Proofs.Cursor.OwnEnd
import FeatureMarkup.Proofs.Geometry.Halting
import FeatureMarkup.Proofs.Reader.Halting
