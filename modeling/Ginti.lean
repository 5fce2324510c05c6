import Ginti.Command.Directory
import Ginti.Main
import Ginti.Lexer.Pull
import Ginti.Session
import Ginti.Proofs.Symbol.Declared
import Ginti.Proofs.Lexer.Progress
import Ginti.Proofs.Symbol.Tracking
import Ginti.Proofs.Lexer.Respacing
import Ginti.Proofs.Lexer.Lexemes
import Ginti.Proofs.Symbol.Lexed
import Ginti.Proofs.Lexer.Order
import Ginti.Proofs.Lexer.Pulling
import Ginti.Proofs.Command.Arguments
import Ginti.Proofs.Text.Utf8
import Ginti.Proofs.Command.Report
import Ginti.Proofs.Command.Agreement
import Ginti.Proofs.Text.Joining
import Ginti.Proofs.Grammar.Ranking
import Ginti.Proofs.Lexer.Reordering
import Ginti.Proofs.Grammar.Cutting
import Ginti.Proofs.Lexer.Cutting
import Ginti.Proofs.Command.Endings
import Ginti.Proofs.Session.Place
import Ginti.Proofs.Session.Collecting
import Ginti.Proofs.Excerpt
import Ginti.Proofs.Listing.Decoding
import Ginti.Proofs.Listing.Trace
import Ginti.Proofs.Symbol.Frames
import Ginti.Proofs.Symbol.Records
