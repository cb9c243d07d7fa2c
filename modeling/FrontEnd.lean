import FrontEnd.Text.Cursor
import FrontEnd.Text.Characters
import FrontEnd.Token.Basic
import FrontEnd.Token.Vocabulary
import FrontEnd.Scanner
import FrontEnd.Export.Format
import FrontEnd.Catalog.Encoding
import FrontEnd.Table
import FrontEnd.Files.Tree
import FrontEnd.Localization
import FrontEnd.Settings.Store
import FrontEnd.Compilation
import FrontEnd.CommandLine.Program
import FrontEnd.Main
import FrontEnd.Proofs.Text.Position
import FrontEnd.Proofs.Text.Run
import FrontEnd.Proofs.Text.Reader
import FrontEnd.Proofs.Text.Digits
import FrontEnd.Proofs.Text.Control
import FrontEnd.Proofs.Layout.Spelling
import FrontEnd.Proofs.Layout.Trivia
import FrontEnd.Proofs.Layout.Basic
import FrontEnd.Proofs.Layout.Broken
import FrontEnd.Proofs.Lexeme.Quoted
import FrontEnd.Proofs.Lexeme.Number
import FrontEnd.Proofs.Lexeme.Gap
import FrontEnd.Proofs.Lexeme.Scan
import FrontEnd.Proofs.Scanner.Reading
import FrontEnd.Proofs.Scanner.Tiling
import FrontEnd.Proofs.Scanner.Faults
import FrontEnd.Proofs.Diagnostic.OneLine
import FrontEnd.Proofs.Toml.OneLine
import FrontEnd.Proofs.Toml.Lines
import FrontEnd.Proofs.Toml.Quoted
import FrontEnd.Proofs.Toml.Scalar
import FrontEnd.Proofs.Toml.Statements
import FrontEnd.Proofs.Export.Toml
import FrontEnd.Proofs.Json.Spelling
import FrontEnd.Proofs.Json.Quoted
import FrontEnd.Proofs.Json.Marks
import FrontEnd.Proofs.Json.Rendering
import FrontEnd.Proofs.Json.Reading
import FrontEnd.Proofs.Json.Fields
import FrontEnd.Proofs.Export.Json
import FrontEnd.Proofs.Text.Order
import FrontEnd.Proofs.Token.Vocabulary
import FrontEnd.Proofs.Text.Origin
import FrontEnd.Proofs.Text.Bytes
import FrontEnd.Proofs.Text.Moves
import FrontEnd.Proofs.Layout.Lines
import FrontEnd.Proofs.Scanner.Answer
import FrontEnd.Proofs.Scanner.Lines
import FrontEnd.Proofs.Scanner.Requests
import FrontEnd.Proofs.Scanner.Resuming
import FrontEnd.Proofs.Scanner.Streams
import FrontEnd.Proofs.Catalog.Messages
import FrontEnd.Proofs.Catalog.Word
import FrontEnd.Proofs.Catalog.Stored
import FrontEnd.Proofs.Catalog.Checks
import FrontEnd.Proofs.Catalog.Reading
import FrontEnd.Proofs.Catalog.Accepted
import FrontEnd.Proofs.Catalog.Layout
import FrontEnd.Proofs.Catalog.RoundTrip
import FrontEnd.Proofs.Catalog.Listing
import FrontEnd.Proofs.Catalog.Extents
import FrontEnd.Proofs.Catalog.Cut
import FrontEnd.Proofs.Catalog.ReversedWords
import FrontEnd.Proofs.Files.Requests
import FrontEnd.Proofs.Files.Changes
import FrontEnd.Proofs.Files.Parents
import FrontEnd.Proofs.Settings.Loading
import FrontEnd.Proofs.Settings.Json
import FrontEnd.Proofs.Settings.Excerpt
import FrontEnd.Proofs.Settings.Saved
import FrontEnd.Proofs.Settings.Installed
import FrontEnd.Proofs.Settings.Startup
import FrontEnd.Proofs.Settings.Refused
import FrontEnd.Proofs.Localization.Preference
import FrontEnd.Proofs.Catalog.Selection
import FrontEnd.Proofs.Catalog.Translations
import FrontEnd.Proofs.Localization.Translations
import FrontEnd.Proofs.Localization.Requests
import FrontEnd.Proofs.CommandLine.Locale
import FrontEnd.Proofs.Message.Pieces
import FrontEnd.Proofs.Message.Words
import FrontEnd.Proofs.Compilation.Report
import FrontEnd.Proofs.Compilation.Reading
import FrontEnd.Proofs.Compilation.Document
import FrontEnd.Proofs.Compilation.ExportedFile
import FrontEnd.Proofs.Compilation.Summary
import FrontEnd.Proofs.Lexeme.Reach
import FrontEnd.Proofs.Lexeme.LookAhead
import FrontEnd.Proofs.Scanner.LookAhead
import FrontEnd.Proofs.Layout.CarriageReturns
import FrontEnd.Proofs.Scanner.Progress
import FrontEnd.Proofs.Scanner.CarriageReturns
