/-!
# Trees of literals

A choice of literals is read along a tree whose ways are labelled with bytes.
Literals with the same beginning share a way, but only those that no shorter
literal separates: where a literal ends, the ways that begin after it was added
form a new group, so that the order of preference is kept.
-/

namespace ByteRegex.MessagePattern

/-- A tree of literals. At a node there is the group of ways that is still
growing, and before it a closed group, latest first, for each literal that ends
at the node. -/
inductive LiteralTree where
  | node (closed : List (List (UInt8 × LiteralTree))) (growing : List (UInt8 × LiteralTree))

namespace LiteralTree

/-- The tree without literals. -/
def empty : LiteralTree :=
  node [] []

def closed : LiteralTree → List (List (UInt8 × LiteralTree))
  | node closed _ => closed

def growing : LiteralTree → List (UInt8 × LiteralTree)
  | node _ growing => growing

/-- Whether no way leads on from the node. -/
def isLeaf : LiteralTree → Bool
  | node closed growing => growing.isEmpty && closed.all List.isEmpty

/-- Changes what the byte `b` leads to, or adds a way for it. -/
def update (b : UInt8) (change : LiteralTree → LiteralTree) :
    List (UInt8 × LiteralTree) → List (UInt8 × LiteralTree)
  | [] => [(b, change empty)]
  | (c, t) :: rest => if c = b then (c, change t) :: rest else (c, t) :: update b change rest

/-- Adds a literal. That a second literal ends at a leaf is not recorded. -/
def insert : List UInt8 → LiteralTree → LiteralTree
  | [], t => if t.isLeaf && !t.closed.isEmpty then t else node (t.growing :: t.closed) []
  | b :: rest, t => node t.closed (update b (insert rest) t.growing)

def ofLiterals (literals : List (List UInt8)) : LiteralTree :=
  literals.foldl (fun t bytes => t.insert bytes) empty

end LiteralTree

end ByteRegex.MessagePattern
