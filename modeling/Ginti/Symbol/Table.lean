import Ginti.Fault
import Ginti.Pattern
import Ginti.Symbol.Scope
import Ginti.Token
import Ginti.Vocabulary

namespace Ginti

/-- A declared name. A symbol made by hand may have no type. -/
structure Symbol where
  name : String
  type : Option TypeKeyword
  scope : Scope
  deriving DecidableEq, Repr

/-- Names with their symbols. There is no shadowing: a name has one symbol, whatever scope it
    is declared in. -/
structure SymbolTable where
  entries : List (String × Symbol)
  deriving DecidableEq, Repr

namespace SymbolTable

def empty : SymbolTable :=
  ⟨[]⟩

/-- The declared names in order. -/
def names (t : SymbolTable) : List String :=
  t.entries.map Prod.fst

/-- The symbols in the order of their names. -/
def symbols (t : SymbolTable) : List Symbol :=
  t.entries.map Prod.snd

/-- The symbol of a name, if the name is declared. -/
def get? (t : SymbolTable) (name : String) : Option Symbol :=
  t.entries.lookup name

/-- Puts a symbol in the place of the one with the same name, or at the end if the name is
    new. -/
def insertIn (name : String) (symbol : Symbol) :
    List (String × Symbol) → List (String × Symbol)
  | [] => [(name, symbol)]
  | (other, old) :: rest =>
    if other = name then (other, symbol) :: rest
    else (other, old) :: insertIn name symbol rest

def insert (t : SymbolTable) (name : String) (symbol : Symbol) : SymbolTable :=
  ⟨insertIn name symbol t.entries⟩

/-- Declares the name that a token spells. The category of the token does not matter, its text
    has to be a valid name. -/
def declare (t : SymbolTable) (token : Token) (type : Option TypeKeyword) (scope : Scope) :
    Except Problem SymbolTable :=
  if isName token.text.toList then .ok (t.insert token.text ⟨token.text, type, scope⟩)
  else .error ⟨.invalidIdentifier token.text, token.position⟩

end SymbolTable

/-- A declaration to be made. -/
structure Declaration where
  token : Token
  type : Option TypeKeyword
  scope : Scope
  deriving DecidableEq, Repr

namespace SymbolTable

/-- Makes a declaration if it is valid. The problem, if any, comes with the table, which is
    unchanged then. -/
def attempt (t : SymbolTable) (d : Declaration) : Option Problem × SymbolTable :=
  match t.declare d.token d.type d.scope with
  | .ok next => (none, next)
  | .error problem => (some problem, t)

/-- Makes some declarations in turn, with the problem and the table after each. -/
def attempts (t : SymbolTable) : List Declaration → List (Option Problem × SymbolTable)
  | [] => []
  | d :: ds =>
    let made := t.attempt d
    made :: attempts made.2 ds

/-- The table after some declarations. -/
def declareAll (t : SymbolTable) (ds : List Declaration) : SymbolTable :=
  ds.foldl (fun table d => (table.attempt d).2) t

end SymbolTable
end Ginti
