import Mnemosyne.Data.ScopeStack
import Mnemosyne.ForkTable.Basic
import Mnemosyne.ForkTable.Scoping
import Mnemosyne.Position
import Mnemosyne.Chars
import Mnemosyne.Semantic.Types
import Mnemosyne.Semantic.Ast
import Mnemosyne.Semantic.Print
import Mnemosyne.Semantic.Const
import Mnemosyne.Compile.Function
import Mnemosyne.Combine.Basic
import Mnemosyne.Combine.Growth
import Mnemosyne.Combine.Yields
import Mnemosyne.Combine.Language
import Mnemosyne.Combine.Ensures
import Mnemosyne.Parser.Language
import Mnemosyne.Parser.Types
import Mnemosyne.Parser.Expr
import Mnemosyne.Parser.RoundTrip
import Mnemosyne.Parser.Accepted
import Mnemosyne.Parser.Syntaxes
import Mnemosyne.Parser.Forms
import Mnemosyne.Parser.Source
