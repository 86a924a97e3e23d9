import DocMark.Log.Template
import DocMark.Main
import DocMark.Proofs.Comment.Composition
import DocMark.Proofs.Comment.PlainComment
import DocMark.Proofs.Document.FencedCode
import DocMark.Proofs.Flavor.TagList
import DocMark.Proofs.Site.Discovery
import DocMark.Proofs.Site.Pages
import DocMark.Proofs.Site.Rerun
import DocMark.Proofs.Source.Concatenation
import DocMark.Proofs.Source.Imports
import DocMark.Proofs.Comment.DescriptionEnd
import DocMark.Proofs.Document.FinalNewline
import DocMark.Proofs.Settings.Layers
import DocMark.Proofs.Comment.FencedValue
import DocMark.Proofs.Settings.InvalidValues
import DocMark.Proofs.Envelope
import DocMark.Proofs.Session.Printing
import DocMark.Proofs.Command.Answers
import DocMark.Proofs.Command.Agreement
import DocMark.Proofs.Flavor.Grouping
import DocMark.Proofs.Flavor.TypedEntries
import DocMark.Proofs.Text.CleanMarkup
import DocMark.Proofs.Comment.LineKinds
import DocMark.Proofs.Comment.Paragraph
import DocMark.Proofs.Comment.ListRuns
import DocMark.Proofs.Pattern.Split
import DocMark.Proofs.Text.SingleLine
import DocMark.Proofs.Settings.Extension
import DocMark.Proofs.Comment.TagCuts
import DocMark.Proofs.Document.LineEndings
import DocMark.Proofs.Source.ClassDeclarations
import DocMark.Proofs.Session.Nesting
import DocMark.Proofs.Scanner.Progress
import DocMark.Proofs.Comment.WrapFlags
import DocMark.Proofs.Envelope.Schema
