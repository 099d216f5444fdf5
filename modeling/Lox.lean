import Lox.Main
import Lox.Syntax.Handmade
import Lox.Proofs.Syntax.Derivation
import Lox.Source.Cursor
import Lox.Token.Loop
import Lox.Proofs.Syntax.Reading
import Lox.Proofs.Syntax.Completeness
import Lox.Proofs.Syntax.Framing
import Lox.Proofs.Syntax.Recovery
import Lox.Proofs.Syntax.Acceptance
import Lox.Proofs.Syntax.Boundary
import Lox.Proofs.Decimal.Binary
import Lox.Proofs.Decimal.Nearest
import Lox.Proofs.Decimal.ReadBack
import Lox.Proofs.Decimal.Spelling
import Lox.Proofs.Grapheme.Clusters
import Lox.Proofs.Token.Pieces
import Lox.Proofs.Token.Lexed
import Lox.Proofs.Token.Legible
import Lox.Proofs.Syntax.Printing
import Lox.Proofs.Syntax.RoundTrip
import Lox.Proofs.Source.Places
import Lox.Proofs.Token.Tiling
import Lox.Proofs.Decimal.Numeral
import Lox.Proofs.Token.Lexicon
import Lox.Proofs.Session.Safety
import Lox.Proofs.Source.Relocation
import Lox.Proofs.Token.LineBreak
import Lox.Proofs.Token.Display
import Lox.Proofs.Syntax.Relocation
import Lox.Proofs.Syntax.Alongside
import Lox.Proofs.Syntax.Lockstep
import Lox.Proofs.Syntax.Nesting
import Lox.Proofs.Syntax.Guard
import Lox.Proofs.Session.Continuation
import Lox.Proofs.Session.Effects
import Lox.Proofs.Text.Utf8
import Lox.Proofs.Session.Script
import Lox.Proofs.Decimal.Finite
import Lox.Proofs.Syntax.Joining
import Lox.Proofs.Corpus.Laws
import Lox.Proofs.Corpus.Phrases
import Lox.Proofs.Session.Scoping
import Lox.Proofs.Corpus.Programs
import Lox.Proofs.Syntax.Resumption
import Lox.Proofs.Text.OneLine
import Lox.Proofs.Session.Reports
import Lox.Proofs.Token.Comments
import Lox.Proofs.Session.Uncommented
import Lox.Proofs.Syntax.Heredity
import Lox.Proofs.Syntax.Onward
import Lox.Proofs.Syntax.Handmade
import Lox.Proofs.Syntax.Canonical
import Lox.Proofs.Session.Limits
import Lox.Proofs.Text.Integer
import Lox.Proofs.Syntax.Extent
import Lox.Proofs.Token.Names
import Lox.Proofs.Session.Blame
import Lox.Proofs.Scope.History
import Lox.Proofs.Session.Meaning
import Lox.Proofs.Decimal.Doubles
import Lox.Proofs.Decimal.Layouts
import Lox.Proofs.Text.Unescape
import Lox.Proofs.Text.Debug
import Lox.Proofs.Token.Numbers
import Lox.Proofs.Syntax.Readability
import Lox.Proofs.Command.Agreement
import Lox.Proofs.Command.Prompt
import Lox.Proofs.Source.Course
import Lox.Proofs.Token.Loop
