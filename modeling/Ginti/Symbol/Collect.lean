import Ginti.Symbol.Table

namespace Ginti

/-- What is known after some tokens: the open scopes, and the type keyword that still waits for
    its identifier. -/
structure DeclarationState where
  scopes : ScopeStack
  pending : Option TypeKeyword
  deriving DecidableEq, Repr

namespace DeclarationState

/-- The state before the first token. -/
def start (nested : Bool) : DeclarationState :=
  ⟨.outermost nested, none⟩

/-- Takes a token into account, and answers with the declaration that it completes. Braces move
    between scopes, a keyword replaces the type that was waiting, and an identifier uses it
    up. -/
def next (s : DeclarationState) (token : Token) : Option Declaration × DeclarationState :=
  match token.category with
  | .separator =>
    if token.text = Separator.leftCurly.spelling then (none, { s with scopes := s.scopes.enter })
    else if token.text = Separator.rightCurly.spelling then
      (none, { s with scopes := s.scopes.exit })
    else (none, s)
  | .keyword => (none, { s with pending := TypeKeyword.ofSpelling? token.text })
  | .identifier =>
    match s.pending with
    | some type =>
      (some ⟨token, some type, s.scopes.current⟩, { s with pending := none })
    | none => (none, s)
  | _ => (none, s)

/-- The declarations among some tokens, valid or not, in order. -/
def declarations (s : DeclarationState) : List Token → List Declaration
  | [] => []
  | token :: tokens =>
    let (declaration, after) := s.next token
    declaration.toList ++ after.declarations tokens

end DeclarationState

/-- The declarations of a sequence of tokens. A declaration is a type keyword followed by an
    identifier, with anything but another keyword in between; nothing checks that the tokens form
    a statement. -/
def declarations (nested : Bool) (tokens : List Token) : List Declaration :=
  (DeclarationState.start nested).declarations tokens

namespace SymbolTable

/-- The table of all valid declarations of a sequence of tokens. -/
def ofTokens (nested : Bool) (tokens : List Token) : SymbolTable :=
  empty.declareAll (declarations nested tokens)

/-- The reports about the invalid declarations of a sequence of tokens. -/
def diagnosticsOf (nested : Bool) (tokens : List Token) : List Diagnostic :=
  ((empty.attempts (declarations nested tokens)).filterMap Prod.fst).map Problem.diagnostic

end SymbolTable
end Ginti
