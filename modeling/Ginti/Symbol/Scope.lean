namespace Ginti

/-- A name is declared outside all blocks or inside one. -/
inductive Scope where
  | global
  | block
  deriving DecidableEq, Repr

namespace Scope

def label : Scope → String
  | global => "Global"
  | block => "Local"

/-- The name of the scope in a listing of symbols. -/
def listed : Scope → String
  | global => "GLOBAL"
  | block => "LOCAL"

end Scope

/-- The scopes that are open at some point of a program. Tracking is flat or nested: flat
    tracking knows only whether some block is open. -/
structure ScopeStack where
  nested : Bool
  /-- The open scopes above the global one, innermost first. -/
  inner : List Scope
  deriving DecidableEq, Repr

namespace ScopeStack

/-- Outside all blocks. -/
def outermost (nested : Bool) : ScopeStack :=
  ⟨nested, []⟩

/-- All open scopes, from the global one inwards. -/
def frames (s : ScopeStack) : List Scope :=
  .global :: s.inner.reverse

/-- The innermost open scope. -/
def current (s : ScopeStack) : Scope :=
  s.inner.headD .global

/-- An opening brace opens a block, but flat tracking opens none inside another. -/
def enter (s : ScopeStack) : ScopeStack :=
  if s.nested || s.inner.isEmpty then { s with inner := .block :: s.inner } else s

/-- A closing brace closes the innermost block, or in flat tracking all blocks. One too many
    changes nothing. -/
def exit (s : ScopeStack) : ScopeStack :=
  if s.nested then { s with inner := s.inner.tail } else { s with inner := [] }

end ScopeStack

/-- What a brace does to the open scopes. -/
inductive ScopeMove where
  | enter
  | exit
  deriving DecidableEq, Repr

namespace ScopeStack

def move (s : ScopeStack) : ScopeMove → ScopeStack
  | .enter => s.enter
  | .exit => s.exit

/-- The stacks passed through by some moves, the first and the last included. -/
def trail (s : ScopeStack) : List ScopeMove → List ScopeStack
  | [] => [s]
  | m :: ms => s :: trail (s.move m) ms

end ScopeStack
end Ginti
