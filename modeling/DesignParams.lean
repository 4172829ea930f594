import DesignParams.Main
import DesignParams.Session
import DesignParams.Proofs.CommandLine.Excluded
import DesignParams.Proofs.CommandLine.Spelling
import DesignParams.Proofs.Document.Overrides
import DesignParams.Proofs.Document.RoundTrip
import DesignParams.Proofs.Path.Resolved
import DesignParams.Proofs.Project.Ordering
import DesignParams.Proofs.Project.Ranking
import DesignParams.Proofs.Rewire.Accepted
import DesignParams.Proofs.Rewire.Again
import DesignParams.Proofs.Rewire.Closed
import DesignParams.Proofs.Rewire.Declared
import DesignParams.Proofs.Rewire.Meaning
import DesignParams.Proofs.Rewire.Override
import DesignParams.Proofs.Rewire.Plan
import DesignParams.Proofs.Rewire.Priority
import DesignParams.Proofs.Rewire.Replay
import DesignParams.Proofs.Rewire.Run
import DesignParams.Proofs.Rewire.Session
import DesignParams.Proofs.RootBlock.Carried
import DesignParams.Proofs.RootBlock.Injection
import DesignParams.Proofs.Stylesheet.Agreement
import DesignParams.Proofs.Stylesheet.Selection
import DesignParams.Proofs.Text.Dashed
import DesignParams.Proofs.Text.Hash
import DesignParams.Proofs.Text.Position
import DesignParams.Proofs.Theme.Parts
import DesignParams.Proofs.Theme.Search
import DesignParams.Proofs.Theme.Segment
