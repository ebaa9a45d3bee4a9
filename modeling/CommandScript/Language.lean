import CommandScript.Program.Basic

/-!
Languages: what a host offers to programs. A language is a table of routes tried in order, with a
fallback for commands that no route accepts. A removed route stays in the table but accepts nothing.
-/

namespace CommandScript

/-- What a handler asks for: going on at a place, stopping, or failing. -/
inductive Flow (π : Type := Unit) where
  | proceed (next : CommandId)
  | halt
  | fail (diagnostic : Diagnostic π)
deriving DecidableEq, Repr

namespace Flow

variable {π : Type}

/-- Going on at a place, or stopping where there is none. -/
def ofNext? : Option CommandId → Flow π
  | some id => .proceed id
  | none => .halt

/-- Going on behind a command. -/
def next (p : Program) (command : Command) : Flow π :=
  ofNext? (p.next? command.id)

/-- Going back to the command before. -/
def previous (p : Program) (command : Command) : Flow π :=
  ofNext? (p.prev? command.id)

/-- Failing at a command. -/
def failAt (code : Code) (command : Command) (message : String) : Flow π :=
  .fail (.error code command.pos message)

end Flow

/-- Runs one command: given the program and the host's context, says how to go on and leaves a new
context. -/
abbrev Handler (σ : Type) (π : Type := Unit) := Program → σ → Command → Flow π × σ

/-- How a route recognises command names: by their bytes, or by a test of its own. -/
inductive Matcher where
  | exact (name : String)
  | predicate (test : Part → Bool)

namespace Matcher

def accepts : Matcher → Part → Bool
  | .exact expected, name => name.text == Bytes.ofString expected
  | .predicate test, name => test name

end Matcher

/-- Whether a route is in use, in use with a warning, or out of use. -/
inductive Lifecycle where
  | active
  | deprecated
  | removed
deriving DecidableEq, Repr

namespace Lifecycle

def label : Lifecycle → String
  | .active => "Active"
  | .deprecated => "Deprecated"
  | .removed => "Removed"

end Lifecycle

/-- An entry of a language. -/
structure Route (σ : Type) (π : Type := Unit) where
  matcher : Matcher
  lifecycle : Lifecycle
  handler : Handler σ π

namespace Route

variable {σ π : Type}

/-- An active route for one name. -/
def exact (name : String) (handler : Handler σ π) : Route σ π :=
  ⟨.exact name, .active, handler⟩

/-- An active route for the names that pass a test. -/
def predicate (test : Part → Bool) (handler : Handler σ π) : Route σ π :=
  ⟨.predicate test, .active, handler⟩

def deprecated (route : Route σ π) : Route σ π :=
  { route with lifecycle := .deprecated }

def removed (route : Route σ π) : Route σ π :=
  { route with lifecycle := .removed }

/-- True when the route is in use and its matcher accepts the name. -/
def accepts (route : Route σ π) (name : Part) : Bool :=
  route.lifecycle != .removed && route.matcher.accepts name

end Route

/-- Where a language finds the handler of a command. -/
inductive Resolution where
  | route (index : Nat)
  | fallback
  | unknown
deriving DecidableEq, Repr

/-- A table of routes with an optional fallback. -/
structure Language (σ : Type) (π : Type := Unit) where
  name : String
  info : Option String := none
  routes : List (Route σ π) := []
  fallback : Option (Handler σ π) := none

namespace Language

variable {σ π : Type}

/-- The first route that accepts the name, else the fallback. -/
def resolve (language : Language σ π) (name : Part) : Resolution :=
  match language.routes.findIdx? (·.accepts name) with
  | some index => .route index
  | none => if language.fallback.isSome then .fallback else .unknown

/-- The handler at a resolution, with a mark on those of deprecated routes. -/
def handlerAt? (language : Language σ π) : Resolution → Option (Handler σ π × Bool)
  | .route index =>
    language.routes[index]?.map fun route => (route.handler, route.lifecycle == .deprecated)
  | .fallback => language.fallback.map fun handler => (handler, false)
  | .unknown => none

/-- The handler for a name. -/
def handlerFor? (language : Language σ π) (name : Part) : Option (Handler σ π × Bool) :=
  language.handlerAt? (language.resolve name)

end Language

/-! ### Debugging text -/

namespace Matcher

def debugText : Matcher → String
  | .exact name => "Exact(" ++ Shown.string name ++ ")"
  | .predicate _ => "Predicate(..)"

end Matcher

namespace Route

/-- The debugging text of a route, which leaves its handler out. -/
def debugText {σ π : Type} (route : Route σ π) : String :=
  "Route \x7b matcher: " ++ route.matcher.debugText ++ ", lifecycle: " ++ route.lifecycle.label
    ++ ", .. \x7d"

end Route

namespace Language

/-- The debugging text of a language, which only tells whether there is a fallback. -/
def debugText {σ π : Type} (language : Language σ π) : String :=
  let info := match language.info with
    | some text => "Some(" ++ Shown.string text ++ ")"
    | none => "None"
  "Language \x7b name: " ++ Shown.string language.name ++ ", info: " ++ info ++ ", routes: ["
    ++ String.intercalate ", " (language.routes.map Route.debugText) ++ "], fallback: "
    ++ (if language.fallback.isSome then "true" else "false") ++ " \x7d"

end Language

end CommandScript
