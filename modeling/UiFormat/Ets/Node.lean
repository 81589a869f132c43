/-
# UiFormat.Ets.Node -- the document tree of ETS source

A document is an ordered list of nodes: imports, exports, declarations, plain
statements and comments; a struct or class holds member nodes in the same way.
Declarations are taken apart, while bodies, initialisers, statements and type
annotations stay source text.

Every node carries the facts about its surroundings that the printer keeps: a
blank line before it, a comment that closes its last line, and its place.
-/
import UiFormat.Ets.Component
import UiFormat.Ets.Token

namespace UiFormat.Ets

open UiFormat.Text

set_option autoImplicit false

/-- A stretch of the source and the line and column of its beginning. -/
structure Span where
  start : Nat
  stop : Nat
  line : Nat
  column : Nat
  deriving DecidableEq, Repr

/-- What surrounds a node in the source. -/
structure Surroundings where
  blankBefore : Bool := false
  trailingComment : Option Text := none
  span : Option Span := none
  deriving DecidableEq, Repr

/-- A decorator with its parenthesised arguments. -/
structure Decorator where
  name : Text
  arguments : Option Text := none
  deriving DecidableEq, Repr

/-- A decorator as text. -/
def Decorator.print (d : Decorator) : Text :=
  ['@'] ++ d.name ++ d.arguments.getD []

/-- One of the decorators marks a body as a component tree. -/
def isBuilder (decorators : List Decorator) : Bool :=
  decorators.any fun d => isOneOf ["Builder", "LocalBuilder"] d.name

/-- A body between braces: its source text and, for builders, its component
tree when all of it was understood. -/
structure Body where
  source : Text
  components : Option (List Component) := none

/-- A parameter of a function or method. -/
structure Parameter where
  name : Text
  decorators : List Decorator := []
  modifiers : List Text := []
  typeAnnotation : Option Text := none
  default : Option Text := none
  isOptional : Bool := false
  isRest : Bool := false
  deriving DecidableEq, Repr

/-- A parameter list: taken apart, or as source text when it holds comments. -/
inductive ParameterList where
  | items (parameters : List Parameter)
  | source (text : Text)
  deriving DecidableEq, Repr

/-- A property of a struct or class. -/
structure Property where
  name : Text
  decorators : List Decorator := []
  modifiers : List Text := []
  typeAnnotation : Option Text := none
  initializer : Option Text := none
  isOptional : Bool := false
  isDefinite : Bool := false
  deriving DecidableEq, Repr

/-- What functions and methods share: everything after the name, and the
decorators before it. -/
structure Callable where
  name : Text
  decorators : List Decorator := []
  typeParams : Option Text := none
  parameters : ParameterList := .items []
  returnType : Option Text := none
  body : Option Body := none

/-- A method of a struct or class. -/
structure Method where
  callable : Callable
  modifiers : List Text := []
  isOptional : Bool := false

/-- A function. -/
structure Function where
  callable : Callable
  isAsync : Bool := false
  isGenerator : Bool := false

/-- A comment standing by itself. -/
structure Comment where
  text : Text
  isBlock : Bool := false
  isDoc : Bool := false
  deriving DecidableEq, Repr

/-- An import.  Only a structured one is rebuilt from its parts; any other is
kept as it was written. -/
structure Import where
  raw : Text
  source : Text := []
  defaultName : Option Text := none
  names : Option (List Text) := none
  namespaceName : Option Text := none
  structured : Bool := false
  deriving DecidableEq, Repr

/-- The head of a struct or class. -/
structure TypeHead where
  name : Text
  decorators : List Decorator := []
  typeParams : Option Text := none
  parent : Option Text := none
  interfaces : List Text := []
  deriving DecidableEq, Repr

/-- An interface; its members are read for the tree alone, the body is what is
printed. -/
structure InterfaceHead where
  name : Text
  body : Text
  typeParams : Option Text := none
  parents : List Text := []
  deriving DecidableEq, Repr

/-- A node of the document tree. -/
inductive Node where
  | importDecl (around : Surroundings) (decl : Import)
  | exportDecl (around : Surroundings) (isDefault : Bool) (declaration : Option Node)
  | structDecl (around : Surroundings) (head : TypeHead) (members : List Node)
  | classDecl (around : Surroundings) (head : TypeHead) (isAbstract : Bool)
      (members : List Node)
  | interfaceDecl (around : Surroundings) (head : InterfaceHead) (members : List Node)
  | functionDecl (around : Surroundings) (decl : Function)
  | statement (around : Surroundings) (text : Text)
  | property (around : Surroundings) (decl : Property)
  | method (around : Surroundings) (decl : Method)
  | build (around : Surroundings) (decorators : List Decorator) (body : Body)
  | comment (around : Surroundings) (decl : Comment)

namespace Node

/-- What surrounds the node. -/
def around : Node → Surroundings
  | importDecl a _ => a
  | exportDecl a _ _ => a
  | structDecl a _ _ => a
  | classDecl a _ _ _ => a
  | interfaceDecl a _ _ => a
  | functionDecl a _ => a
  | statement a _ => a
  | property a _ => a
  | method a _ => a
  | build a _ _ => a
  | comment a _ => a

/-- The node in other surroundings. -/
def withAround (a : Surroundings) : Node → Node
  | importDecl _ d => importDecl a d
  | exportDecl _ isDefault d => exportDecl a isDefault d
  | structDecl _ head members => structDecl a head members
  | classDecl _ head isAbstract members => classDecl a head isAbstract members
  | interfaceDecl _ head members => interfaceDecl a head members
  | functionDecl _ d => functionDecl a d
  | statement _ text => statement a text
  | property _ d => property a d
  | method _ d => method a d
  | build _ decorators body => build a decorators body
  | comment _ d => comment a d

/-- The name of the node's class in error messages. -/
def kindName : Node → String
  | importDecl _ _ => "ImportDecl"
  | exportDecl _ _ _ => "ExportDecl"
  | structDecl _ _ _ => "StructDecl"
  | classDecl _ _ _ _ => "ClassDecl"
  | interfaceDecl _ _ _ => "InterfaceDecl"
  | functionDecl _ _ => "FunctionDecl"
  | statement _ _ => "RawStatement"
  | property _ _ => "Property"
  | method _ _ => "Method"
  | build _ _ _ => "BuildMethod"
  | comment _ _ => "CommentNode"

/-- The node is a comment. -/
def isComment : Node → Bool
  | comment _ _ => true
  | _ => false

/-- The declaration inside an export, or the node itself. -/
def declared : Node → Node
  | exportDecl _ _ (some d) => d
  | n => n

end Node

/-- The first node has no blank line before it. -/
def openSequence : List Node → List Node
  | [] => []
  | n :: rest => n.withAround { n.around with blankBefore := false } :: rest

/-- A parsed source: its nodes and the tokens that belong to none of them. -/
structure Document where
  children : List Node
  dropped : List Tok

namespace Document

/-- The text of every import. -/
def imports (d : Document) : List Text :=
  d.children.filterMap fun
    | .importDecl _ i => some i.raw
    | _ => none

/-- For every export, whether it is the default one. -/
def exports (d : Document) : List Bool :=
  d.children.filterMap fun
    | .exportDecl _ isDefault _ => some isDefault
    | _ => none

/-- The names of the structs, exported ones included. -/
def structs (d : Document) : List Text :=
  d.children.filterMap fun n => match n.declared with
    | .structDecl _ head _ => some head.name
    | _ => none

/-- The names of the classes, exported ones included. -/
def classes (d : Document) : List Text :=
  d.children.filterMap fun n => match n.declared with
    | .classDecl _ head _ _ => some head.name
    | _ => none

/-- The names of the interfaces, exported ones included. -/
def interfaces (d : Document) : List Text :=
  d.children.filterMap fun n => match n.declared with
    | .interfaceDecl _ head _ => some head.name
    | _ => none

/-- The names of the functions, exported ones included. -/
def functions (d : Document) : List Text :=
  d.children.filterMap fun n => match n.declared with
    | .functionDecl _ f => some f.callable.name
    | _ => none

end Document
end UiFormat.Ets
