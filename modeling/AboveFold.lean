import AboveFold.CommandLine.Run
import AboveFold.Main
import AboveFold.Token.Stream
import AboveFold.Unicode.Age
import AboveFold.Unicode.Script
import AboveFold.Unicode.Shared
import AboveFold.Pattern.Property
import AboveFold.Pattern.Division
import AboveFold.Pattern.PropertyName
import AboveFold.Pattern.Ranges
import AboveFold.Pattern.Size
import AboveFold.Proofs.Grammar.Layout
import AboveFold.Proofs.Grammar.ComponentSpan
import AboveFold.Proofs.Grammar.Entries
import AboveFold.Proofs.Grammar.Lossless
import AboveFold.Proofs.Stylesheet.Editing
import AboveFold.Proofs.Stylesheet.Fidelity
import AboveFold.Proofs.Stylesheet.Grammatical
import AboveFold.Proofs.Stylesheet.Pruning
import AboveFold.Proofs.Token.Positions
import AboveFold.Proofs.Source.Counting
import AboveFold.Proofs.Token.Extent
import AboveFold.Proofs.Stylesheet.Selecting
import AboveFold.Proofs.Stylesheet.Variables
import AboveFold.Proofs.Stylesheet.UsedVariables
import AboveFold.Proofs.Stylesheet.Comments
import AboveFold.Proofs.Stylesheet.Meaning
import AboveFold.Proofs.Stylesheet.WrittenUrl
import AboveFold.Proofs.Stylesheet.Absolute
import AboveFold.Proofs.Stylesheet.Fonts
import AboveFold.Proofs.Token.Collapsing
import AboveFold.Proofs.Prune.MediaLists
import AboveFold.Proofs.Grammar.Lookahead
import AboveFold.Proofs.Grammar.Important
import AboveFold.Proofs.Grammar.Undamaged
import AboveFold.Proofs.Stylesheet.Bounded
import AboveFold.Proofs.Grammar.Located
import AboveFold.Proofs.Stylesheet.Shown
import AboveFold.Proofs.Tree.Replacing
import AboveFold.Proofs.Grammar.SourceOrder
import AboveFold.Proofs.Stylesheet.Snippets
import AboveFold.Proofs.Token.Alone
import AboveFold.Proofs.Tree.Least
import AboveFold.Proofs.Stylesheet.Completing
import AboveFold.Proofs.CommandLine.Inspecting
import AboveFold.Proofs.Token.Buffering
import AboveFold.Proofs.Stylesheet.MediaTexts
import AboveFold.Proofs.Stylesheet.Rereading
