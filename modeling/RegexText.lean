import RegexText.Text.Offset
import RegexText.Text.Escape
import RegexText.Text.Numeral
import RegexText.Text.Utf8
import RegexText.Unicode.Property
import RegexText.Text.Quoted
import RegexText.Error
import RegexText.Token
import RegexText.Traced
import RegexText.Text.Sorted
import RegexText.Symbol
import RegexText.CaptureMap
import RegexText.Lexeme
import RegexText.TokenStream
import RegexText.Pattern
import RegexText.Chain
import RegexText.Chain.Alternation
import RegexText.Chain.Merge
import RegexText.WordList
import RegexText.CategoryEscape
import RegexText.Backreference
import RegexText.Conversion
import RegexText.CommandLine.Json
import RegexText.CommandLine.Request
import RegexText.CommandLine.Platform
import RegexText.CommandLine.Listing
import RegexText.CommandLine.Program
import RegexText.CommandLine.Arguments
import RegexText.CommandLine.Directory
import RegexText.CommandLine.Run
import RegexText.Main
import RegexText.Proofs.TokenStream.Run
import RegexText.Proofs.TokenStream.WellFormed
import RegexText.Proofs.TokenStream.Outline
import RegexText.Proofs.Text.Unescaped
import RegexText.Proofs.Lexeme.Special
import RegexText.Proofs.Lexeme
import RegexText.Proofs.Syntax
import RegexText.Proofs.Syntax.Lexing
import RegexText.Proofs.TokenStream.Tree
import RegexText.Proofs.Regular.Bracket
import RegexText.Proofs.Regular
import RegexText.Proofs.Regular.Reading
import RegexText.Proofs.Text.Distinct
import RegexText.Proofs.Regular.Optional
import RegexText.Proofs.Regular.Symbols
import RegexText.Proofs.Chain.Language
import RegexText.Proofs.Traced
import RegexText.Proofs.Pattern
import RegexText.Proofs.Chain.Alternation
import RegexText.Proofs.Chain.Factor
import RegexText.Proofs.Chain.Groups
import RegexText.Proofs.Chain.Merge
import RegexText.Proofs.Chain.Depth
import RegexText.Proofs.Chain.Apart
import RegexText.Proofs.WordList
import RegexText.Proofs.WordList.Depth
import RegexText.Proofs.Regular.Lookahead
import RegexText.Proofs.WordList.Lookahead
import RegexText.Proofs.Source
import RegexText.Proofs.Source.Spelling
import RegexText.Proofs.Translation
import RegexText.Proofs.Conversion.Escapes
import RegexText.Proofs.Conversion.References
import RegexText.Proofs.Conversion.Literal
import RegexText.Proofs.Conversion.Tokens
import RegexText.Proofs.Conversion.Inversion
import RegexText.Proofs.Conversion.Rendered
import RegexText.Proofs.Conversion.Parentheses
import RegexText.Proofs.Conversion.Groups
import RegexText.Proofs.Conversion
import RegexText.Proofs.Conversion.Inert
import RegexText.Proofs.WordList.Conversion
import RegexText.Proofs.Lexeme.Outside
import RegexText.Proofs.TokenStream.Captures
import RegexText.Proofs.Conversion.Categories
import RegexText.Proofs.Conversion.Acceptance
import RegexText.Proofs.Conversion.Numbering
import RegexText.Proofs.Conversion.Resolution
import RegexText.Proofs.Conversion.Places
import RegexText.Proofs.Conversion.Backreferences
import RegexText.Proofs.Regular.Assertions
import RegexText.Proofs.Regular.Literal
import RegexText.Proofs.Target.Units
import RegexText.Proofs.Target.Literal
import RegexText.Proofs.Conversion.Assertions
import RegexText.Proofs.Piece
import RegexText.Proofs.Pattern.Extended
import RegexText.Proofs.Lexeme.Opener
import RegexText.Proofs.Lexeme.Grammar
import RegexText.Proofs.TokenStream.Coverage
import RegexText.Proofs.TokenStream.Failure
import RegexText.Proofs.Pattern.Delimiters
import RegexText.Proofs.Conversion.Written
import RegexText.Proofs.Conversion.Delimited
import RegexText.Proofs.Piece.Possessive
import RegexText.Proofs.Piece.Decimal
import RegexText.Proofs.Conversion.Possessive
import RegexText.Proofs.Conversion.Decimals
import RegexText.Proofs.Target.Escape
import RegexText.Proofs.Target.Bracket
import RegexText.Proofs.CategoryEscape.Ranges
import RegexText.Proofs.CategoryEscape.Units
import RegexText.Proofs.CategoryEscape.Content
import RegexText.Proofs.Regular.Branches
import RegexText.Proofs.Chain.Branches
import RegexText.Proofs.Chain.Spread
import RegexText.Proofs.WordList.Branches
import RegexText.Proofs.WordList.Members
import RegexText.Proofs.Pattern.Slashes
import RegexText.Proofs.Conversion.Common
import RegexText.Proofs.Source.Bracket
import RegexText.Proofs.Source.Folding
import RegexText.Proofs.Source.Clashing
import RegexText.Proofs.Text.Utf8
import RegexText.Proofs.CommandLine.Lines
import RegexText.Proofs.CommandLine.Run
import RegexText.Proofs.CommandLine.Words
import RegexText.Proofs.CommandLine.Platform
import RegexText.Proofs.CommandLine.Directory
import RegexText.Proofs.CommandLine.Messages
import RegexText.Proofs.Conversion.Events
import RegexText.Proofs.CommandLine.Converting
import RegexText.Proofs.CommandLine.Failing
import RegexText.Proofs.Regular.Whole
import RegexText.Proofs.Symbol
import RegexText.Proofs.Chain.Maximal
import RegexText.Proofs.CaptureMap
