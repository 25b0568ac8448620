import AnswerStream.Chat.Memory
import AnswerStream.Main
import AnswerStream.Command.Program
import AnswerStream.Proofs.Scan.Forest
import AnswerStream.Proofs.Scan.Invariant
import AnswerStream.Proofs.Scan.Nested
import AnswerStream.Proofs.Scan.Reading
import AnswerStream.Proofs.Scan.Remaining
import AnswerStream.Proofs.Scan.Wrapping
import AnswerStream.Proofs.Markup.Tag
import AnswerStream.Proofs.Markup.Nesting
import AnswerStream.Proofs.Markup.Pieces
import AnswerStream.Proofs.Markup.TidyRun
import AnswerStream.Proofs.Markup.Links
import AnswerStream.Proofs.Markup.Blocks
import AnswerStream.Proofs.Markup.CodeLink
import AnswerStream.Proofs.Markup.CodeSpan
import AnswerStream.Proofs.Highlight.Document
import AnswerStream.Proofs.Highlight.Text
import AnswerStream.Proofs.Highlight.Tidy
import AnswerStream.Proofs.Markup.Answer
import AnswerStream.Proofs.Text.Trim
import AnswerStream.Proofs.Text.Lines
import AnswerStream.Proofs.Markup.Page
import AnswerStream.Proofs.Markup.PageRun
import AnswerStream.Proofs.Markup.Regions
import AnswerStream.Proofs.Markup.Prepare
import AnswerStream.Proofs.Markup.FencedCode
import AnswerStream.Proofs.Markup.PlainAnswer
import AnswerStream.Proofs.Markup.Stable
import AnswerStream.Proofs.Markup.Origin
import AnswerStream.Proofs.Markup.Attributes
import AnswerStream.Proofs.Markup.Address
import AnswerStream.Proofs.Chat.Run
import AnswerStream.Proofs.Chat.Parts
import AnswerStream.Proofs.Chat.Turn
import AnswerStream.Proofs.Chat.Phase
import AnswerStream.Proofs.Chat.Channel
import AnswerStream.Proofs.Chat.Stream
import AnswerStream.Proofs.Chat.Loading
import AnswerStream.Proofs.Chat.Screen
import AnswerStream.Proofs.Chat.Entries
import AnswerStream.Proofs.Chat.Redraw
import AnswerStream.Proofs.Chat.Transcript
import AnswerStream.Proofs.Chat.Refusal
import AnswerStream.Proofs.Chat.Teardown
import AnswerStream.Proofs.Chat.Delivery
import AnswerStream.Proofs.Chat.Questions
import AnswerStream.Proofs.Chat.CurrentChat
import AnswerStream.Proofs.Chat.Announced
import AnswerStream.Proofs.Chat.Rounds
import AnswerStream.Proofs.Chat.Switches
import AnswerStream.Proofs.Markup.Decoration
import AnswerStream.Proofs.Highlight.Lexer
import AnswerStream.Proofs.Highlight.LexerScan
import AnswerStream.Proofs.Highlight.LexerRun
import AnswerStream.Proofs.Highlight.Splice
import AnswerStream.Proofs.Json.Written
import AnswerStream.Proofs.Json.RoundTrip
import AnswerStream.Proofs.Chat.Addresses
import AnswerStream.Proofs.Chat.Stored
import AnswerStream.Proofs.Chat.Busy
import AnswerStream.Proofs.Markup.Delimiters
import AnswerStream.Proofs.Markup.ClosedSpans
import AnswerStream.Proofs.Markup.TableRows
import AnswerStream.Proofs.Markup.Priority
import AnswerStream.Proofs.Chat.SideRequests
import AnswerStream.Proofs.Chat.Asking
import AnswerStream.Proofs.Markup.Untouched
import AnswerStream.Proofs.Markup.EmphasisInLinks
import AnswerStream.Proofs.Markup.Cursor
import AnswerStream.Proofs.Markup.KeptText
import AnswerStream.Proofs.Markup.HeadingText
import AnswerStream.Proofs.Highlight.LineLocality
import AnswerStream.Proofs.Chat.Resources
import AnswerStream.Proofs.Highlight.Cache
import AnswerStream.Proofs.Scan.Steps
import AnswerStream.Proofs.Highlight.RegexEnd
import AnswerStream.Proofs.Scan.Tape
import AnswerStream.Proofs.Scan.TapeRun
import AnswerStream.Proofs.Scan.Views
import AnswerStream.Proofs.Text.Pattern
import AnswerStream.Proofs.Markup.LinkPattern
