/-
# UiFormat.Ets.ComponentParser -- reading the component tree

The text of a build body is read by looking for the few shapes a component can
have.  Whatever is not recognised is passed over one character at a time, and so
are comments; either makes the reading incomplete, and the caller then keeps the
source text instead of the tree.

A name may be separated from its bracket by any blanks, but only plain blanks are
passed over in front of it; after other blanks the bracket is not found and the
reading ends up incomplete.
-/
import UiFormat.Text.Blank
import UiFormat.Text.NumberExtent
import UiFormat.Text.Quoted
import UiFormat.Parse.Loop
import UiFormat.Ets.Component

namespace UiFormat.Ets

open UiFormat.Text
open UiFormat.Parse

set_option autoImplicit false

/-- How many blocks, and how many links of one conditional chain, are followed
inside each other. -/
def nestingLimit : Nat := 64

/-- The text left, and whether everything before it was understood. -/
structure BodyState where
  rest : Text
  complete : Bool
  deriving DecidableEq, Repr

/-- A computation that reads the text of a body. -/
abbrev BodyParser := StateM BodyState

/-- Continues with `rest`. -/
def resume (rest : Text) : BodyParser Unit :=
  modify fun s => { s with rest }

/-- Something has been passed over. -/
def giveUp : BodyParser Unit :=
  modify fun s => { s with complete := false }

/-! ## Shapes -/

/-- After any blanks the text goes on with `c`. -/
def opensWith (c : Char) (text : Text) : Bool :=
  startsWith (trimStart text) [c]

/-- The word stands here with a bracket `c` after it. -/
def wordThen (word : String) (c : Char) (text : Text) : Bool :=
  match after? word.toList text with
  | some rest => opensWith c rest
  | none => false

/-- An `else` that is followed by a further condition. -/
def isElseIf (text : Text) : Bool :=
  match after? "else".toList text with
  | some rest =>
      (rest.head?.any isBlank) && wordThen "if" '(' (trimStart rest)
  | none => false

/-- A character that can continue the name of a component. -/
def isComponentChar (c : Char) : Bool :=
  c.isAlphanum || c == '_'

/-- A character that can continue the name of a chained call. -/
def isCallChar (c : Char) : Bool :=
  c.isAlphanum || c == '_' || c == '$'

/-- The name of the loop that stands here. -/
def loopName? (text : Text) : Option Text :=
  if wordThen "LazyForEach" '(' text then some "LazyForEach".toList
  else if wordThen "ForEach" '(' text then some "ForEach".toList
  else none

/-- The capitalised name in front of a parenthesis. -/
def componentName? (text : Text) : Option Text :=
  match text with
  | [] => none
  | c :: rest =>
      if c.isUpper && opensWith '(' (rest.dropWhile isComponentChar) then
        some (c :: rest.takeWhile isComponentChar)
      else none

/-- The name of the chained call that stands here. -/
def callName? (text : Text) : Option Text :=
  match text with
  | '.' :: c :: rest =>
      if isCallChar c && !c.isDigit && opensWith '(' (rest.dropWhile isCallChar) then
        some (c :: rest.takeWhile isCallChar)
      else none
  | _ => none

/-! ## Scanning -/

/-- Length of the plain blanks and comments at the front, and whether there were
comments. -/
def gapLength (text : Text) : Nat × Bool :=
  match text with
  | [] => (0, false)
  | c :: rest =>
      if isPlainBlank c then
        let (n, commented) := gapLength rest
        (n + 1, commented)
      else if c = '/' && startsWith rest ['/'] then
        let extra := runLength (· != '\n') rest
        ((gapLength (rest.drop extra)).1 + extra + 1, true)
      else if c = '/' && startsWith rest ['*'] then
        let extra := lengthThrough "*/".toList (rest.drop 1) + 1
        ((gapLength (rest.drop extra)).1 + extra + 1, true)
      else (0, false)
termination_by text.length
decreasing_by all_goals simp only [List.length_drop, List.length_cons]; omega

/-- Passes over plain blanks and comments. -/
def skipGap : BodyParser Unit :=
  modify fun s =>
    let (n, commented) := gapLength s.rest
    { rest := s.rest.drop n, complete := s.complete && !commented }

/-- Length of the text up to the bracket that closes the first one, `depth`
being open before it.  Brackets inside literals do not count; without a closing
bracket it is all of the text. -/
def balancedLength (opening closing : Char) (depth : Nat) (text : Text) : Nat :=
  match text with
  | [] => 0
  | c :: rest =>
      if c = '\x22' || c = '\x27' || c = '\x60' then
        let extra := literalExtent c rest
        balancedLength opening closing depth (rest.drop extra) + extra + 1
      else
        let depth :=
          if c = opening then depth + 1 else if c = closing then depth - 1 else depth
        if depth = 0 then 1 else balancedLength opening closing depth rest + 1
termination_by text.length
decreasing_by all_goals simp only [List.length_drop, List.length_cons]; omega

/-- Reads from the bracket that stands here to its partner; nothing when another
character stands here. -/
def balanced (opening closing : Char) : BodyParser Text := do
  let s ← get
  if startsWith s.rest [opening] then
    let n := balancedLength opening closing 0 s.rest
    resume (s.rest.drop n)
    return s.rest.take n
  else return []

/-! ## Components -/

/-- One chained call. -/
def callRound : BodyParser (Round Call) := do
  let start := (← get).rest
  skipGap
  match callName? (← get).rest with
  | none =>
      resume start
      return .stop
  | some name =>
      resume ((← get).rest.drop (name.length + 1))
      skipGap
      let arguments ← balanced '(' ')'
      return .next { name, arguments }

/-- The chained calls that stand here. -/
def chainedCalls : BodyParser (List Call) :=
  collectBy (·.rest.length) callRound

/-- A block of children read by `nested`; `none` when no brace stands here. -/
def childBlock (nested : Text → List Component × Bool) :
    BodyParser (Option (List Component)) := do
  let start := (← get).rest
  skipGap
  if startsWith (← get).rest ['{'] then
    let body ← balanced '{' '}'
    let closed := endsWith body ['}']
    let (children, complete) := nested (if closed then withoutEnds body else body.drop 1)
    if !(complete && closed) then giveUp
    return some children
  else
    resume start
    return none

/-- The block a conditional needs; without one the reading is incomplete. -/
def requiredBlock (nested : Text → List Component × Bool) : BodyParser (List Component) := do
  match ← childBlock nested with
  | some children => return children
  | none =>
      giveUp
      return []

/-- What follows the block of a branch; `next` reads a further branch of the
chain, unless the chain is too long already. -/
def branchTail (nested : Text → List Component × Bool) (next : Option (BodyParser Branch)) :
    BodyParser Otherwise := do
  let start := (← get).rest
  skipGap
  let here := (← get).rest
  if isElseIf here then
    match next with
    | none =>
        giveUp
        resume []
        return .nothing
    | some next =>
        resume (here.drop 4)
        skipGap
        let branch ← next
        return .chain branch
  else if wordThen "else" '{' here then
    resume (here.drop 4)
    skipGap
    let alternate ← requiredBlock nested
    return .block alternate
  else
    resume start
    return .nothing

/-- A branch, whose `if` stands here, with what follows it. -/
def branchWith (nested : Text → List Component × Bool) (next : Option (BodyParser Branch)) :
    BodyParser Branch := do
  resume ((← get).rest.drop 2)
  skipGap
  let condition ← balanced '(' ')'
  let children ← requiredBlock nested
  let following ← branchTail nested next
  return .mk (some condition) children following

/-- A branch with `links` more branches allowed in its chain. -/
def branch (nested : Text → List Component × Bool) : (links : Nat) → BodyParser Branch
  | 0 => branchWith nested none
  | links + 1 => branchWith nested (some (branch nested links))

/-- A component called `name`. -/
def plainComponent (nested : Text → List Component × Bool) (name : Text) :
    BodyParser Component := do
  resume ((← get).rest.drop name.length)
  skipGap
  let arguments ← balanced '(' ')'
  let calls ← chainedCalls
  match ← childBlock nested with
  | none => return .plain name arguments calls none []
  | some children =>
      let callsAfter ← chainedCalls
      return .plain name arguments calls (some children) callsAfter

/-- The component that stands here. -/
def component? (nested : Text → List Component × Bool) : BodyParser (Option Component) := do
  let here := (← get).rest
  match loopName? here with
  | some name =>
      resume (here.drop name.length)
      skipGap
      let expression ← balanced '(' ')'
      return some (.loop name expression)
  | none =>
      if wordThen "if" '(' here then
        let b ← branch nested nestingLimit
        return some (.conditional b)
      else
        match componentName? here with
        | some name => some <$> plainComponent nested name
        | none => return none

/-- One component, or one character that belongs to none. -/
def componentRound (nested : Text → List Component × Bool) : BodyParser (Round Component) := do
  skipGap
  if (← get).rest.isEmpty then return .stop
  match ← component? nested with
  | some c => return .next c
  | none =>
      giveUp
      resume ((← get).rest.drop 1)
      return .skip

/-- All components of a body. -/
def componentList (nested : Text → List Component × Bool) : BodyParser (List Component) :=
  collectBy (·.rest.length) (componentRound nested)

/-- The components of a body in which blocks may be nested `levels` deep, and
whether all of it was understood. -/
def componentsAt : (levels : Nat) → Text → List Component × Bool
  | 0, text =>
      let (components, s) := componentList (fun _ => ([], false)) { rest := text, complete := true }
      (components, s.complete)
  | levels + 1, text =>
      let (components, s) := componentList (componentsAt levels) { rest := text, complete := true }
      (components, s.complete)

/-- The components of a body, and whether all of it was understood. -/
def parseComponents (text : Text) : List Component × Bool :=
  componentsAt nestingLimit text

end UiFormat.Ets
