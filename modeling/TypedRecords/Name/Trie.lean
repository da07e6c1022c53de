import TypedRecords.Failure
import TypedRecords.Name.Packing

/-!
# The trie of names

Names are kept as paths of chunks. The nodes lie in one array and refer to each other by 32-bit
ids; a node is appended when a name first needs it, so the array shows the order of creation. The
children of a node ascend by key.
-/

namespace TypedRecords.Name

/-- The place of a node in the array of its trie. -/
structure NodePlace where
  raw : UInt32
  deriving DecidableEq, Repr

/-- The root's place. -/
def NodePlace.root : NodePlace := ⟨0⟩

/-- The place of a node as a number. -/
def NodePlace.toNat (id : NodePlace) : Nat := id.raw.toNat

/-- One level of a path: the chunk that leads here, the field whose name ends here, and the nodes
one level further, ascending by key. -/
structure Node where
  key : UInt64
  field : Option Position
  children : List NodePlace
  deriving DecidableEq, Repr

namespace Node

/-- A node for which nothing is known but its key. -/
def fresh (key : UInt64) : Node := ⟨key, none, []⟩

/-- Whether a name ends at the node. -/
def endsName (n : Node) : Bool := n.field.isSome

end Node

/-- The nodes, the root first, and the number of chunks of the longest name. -/
structure Trie where
  nodes : Array Node
  depth : Nat
  deriving DecidableEq, Repr

namespace Trie

/-- Only the root. -/
def empty : Trie := ⟨#[.fresh 0], 0⟩

/-- The node at a place. -/
def node (t : Trie) (id : NodePlace) : Node := t.nodes.getD id.toNat (.fresh 0)

/-- The root. -/
def root (t : Trie) : Node := t.node .root

/-- The number of nodes, the root included. -/
def size (t : Trie) : Nat := t.nodes.size

/-- The child of a node that a chunk leads to. -/
def child? (t : Trie) (parent : NodePlace) (key : UInt64) : Option NodePlace :=
  (t.node parent).children.find? fun child => (t.node child).key == key

/-- The node at the end of a path. -/
def find? (t : Trie) (start : NodePlace) : List UInt64 → Option NodePlace
  | [] => some start
  | key :: path => do t.find? (← t.child? start key) path

/-- Puts a new child in front of the first one whose key is not smaller. -/
def placeChild (t : Trie) (key : UInt64) (child : NodePlace) (children : List NodePlace) :
    List NodePlace :=
  let smaller (other : NodePlace) : Bool := (t.node other).key < key
  children.takeWhile smaller ++ child :: children.dropWhile smaller

/-- Appends a node without a field and makes it a child of `parent`. -/
def addChild (t : Trie) (parent : NodePlace) (key : UInt64) : NodePlace × Trie :=
  let child : NodePlace := ⟨UInt32.ofNat t.nodes.size⟩
  let adopt (n : Node) : Node := { n with children := t.placeChild key child n.children }
  (child, { t with nodes := (t.nodes.push (.fresh key)).modify parent.toNat adopt })

/-- Follows a path, adding the nodes that are missing; returns the node at its end. -/
def grow (t : Trie) (start : NodePlace) : List UInt64 → NodePlace × Trie
  | [] => (start, t)
  | key :: path =>
    match t.child? start key with
    | some child => t.grow child path
    | none =>
      let (child, t) := t.addChild start key
      t.grow child path

/-- Grows a path and lets a field end there. -/
def plant (t : Trie) (path : List UInt64) (field : Position) : Trie :=
  let (last, t) := t.grow .root path
  { nodes := t.nodes.modify last.toNat fun n => { n with field := some field }
    depth := max t.depth path.length }

/-- Whether a name ends at the end of a path. -/
def isTaken (t : Trie) (path : List UInt64) : Bool :=
  match t.find? .root path with
  | some last => (t.node last).endsName
  | none => false

/-- Adds a name for a field. The name is checked before any node is added: it must not be empty,
must pack, and must be new. -/
def insert (t : Trie) (name : String) (field : Position) : Except Failure Trie :=
  if name.isEmpty then .error .nameEmpty
  else
    match pack name with
    | .error bad => .error (.nameUnpackable name bad.char bad.offset)
    | .ok path =>
      if t.isTaken path then .error (.nameTaken name) else .ok (t.plant path field)

/-- Adds names for the fields from position `start` on. -/
def insertAll (t : Trie) (start : Nat) : List String → Except Failure Trie
  | [] => .ok t
  | name :: names =>
    match Position.ofNat? start with
    | none => .error (.tooManyFields (start + 1))
    | some field => do (← t.insert name field).insertAll (start + 1) names

/-- The trie of names that belong to the positions in order. -/
def ofNames (names : List String) : Except Failure Trie := empty.insertAll 0 names

/-- The field of a name, found by walking the trie. -/
def get? (t : Trie) (name : String) : Option Position :=
  match pack name with
  | .error _ => none
  | .ok path => do (t.node (← t.find? .root path)).field

/-- A node met on the way through a trie, and how many chunks lead to it. -/
structure Visit where
  id : NodePlace
  level : Nat
  node : Node
  deriving DecidableEq, Repr

/-- Visits a node and then what lies below it, down to `below` levels further. -/
def visit (t : Trie) : Nat → Nat → NodePlace → List Visit
  | 0, level, id => [⟨id, level, t.node id⟩]
  | below + 1, level, id =>
    ⟨id, level, t.node id⟩ :: (t.node id).children.flatMap (t.visit below (level + 1))

/-- All nodes, each before its children, children in key order. -/
def preorder (t : Trie) : List Visit := t.visit t.depth 0 .root

end Trie
end TypedRecords.Name
