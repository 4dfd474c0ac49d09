import ByteRegex.Graph.Basic
import ByteRegex.Pattern.Reader

/-!
# Spelling a graph

A graph is written out again as a pattern text by walking it: along a chain
each node is spelled in turn, and at the head of a group the walk goes through
every alternative up to the group's tail. A graph has one spelling, whatever
text it was made from: `[a]` and `a` are both spelled `a`.

A walk passes a node at most once on its way unless the graph runs in a circle,
so the number of nodes bounds it; there is no spelling if the bound is met or
if an index leads nowhere.
-/

namespace ByteRegex

/-- The bytes that a literal must escape to stand for themselves anywhere. A
closing bracket is none of them. -/
def needsEscape (b : UInt8) : Bool :=
  Sign.ofByte b != .plain || b == '^'.toUInt8

/-- How a single byte is spelled. -/
def spellByte (b : UInt8) : List UInt8 :=
  if needsEscape b then ['\\'.toUInt8, b] else [b]

/-- A class is spelled in the shortest way that reads back as the same list of
bytes; brackets keep their bytes verbatim. -/
def ByteClass.spell (c : ByteClass) : List UInt8 :=
  match c.inverted, c.written with
  | true, [] => ['.'.toUInt8]
  | false, [b] => spellByte b
  | inverted, written =>
    if inverted = false ∧ written = digits then ['\\'.toUInt8, 'd'.toUInt8]
    else if inverted = false ∧ written = wordBytes then ['\\'.toUInt8, 'w'.toUInt8]
    else
      ['['.toUInt8] ++ (if inverted then ['^'.toUInt8] else []) ++ written ++ [']'.toUInt8]

def Repeat.spell : Repeat → List UInt8
  | once => []
  | optional => ['?'.toUInt8]
  | star => ['*'.toUInt8]
  | plus => ['+'.toUInt8]

/-- A reference to a slot, by the number of its group. -/
def spellReference (slot : Nat) : List UInt8 :=
  '\\'.toUInt8 :: (toString (slot + 1)).toUTF8.toList

/-- Alternatives between parentheses. -/
def spellBranches (branches : List (List UInt8)) : List UInt8 :=
  ['('.toUInt8] ++ List.intercalate ['|'.toUInt8] branches ++ [')'.toUInt8]

namespace Program

/-- Where the walk goes on after a group: after its tail, or nowhere if that
node is no tail. Fails if there is no such node. -/
def afterTail? (p : Program) (tail : NodeId) : Option (Option NodeId) :=
  match p.nodes[tail]? with
  | none => none
  | some (.groupTail _ _ next) => some next
  | some _ => some none

/-- The spelling from a node on, up to the end of the chain or to `stop`. The
walk may pass `room` nodes in a row. -/
def spellFrom? (p : Program) (room : Nat) (here stop : Option NodeId) : Option (List UInt8) :=
  match here with
  | none => some []
  | some id =>
    if stop = some id then some []
    else
      match room with
      | 0 => none
      | room + 1 =>
        match p.nodes[id]? with
        | none => none
        | some (.bytes accepted times next) =>
          (p.spellFrom? room next stop).map (accepted.spell ++ times.spell ++ ·)
        | some (.backreference slot next) =>
          (p.spellFrom? room next stop).map (spellReference slot ++ ·)
        | some (.groupHead _ times alternatives tail) =>
          (alternatives.mapM fun entry => p.spellFrom? room (some entry) (some tail)).bind
            fun branches => (p.afterTail? tail).bind
            fun next => (p.spellFrom? room next stop).map
              (spellBranches branches ++ times.spell ++ ·)
        | some (.groupTail _ _ next) => p.spellFrom? room next stop
        | some .endAnchor => some ['$'.toUInt8]

/-- The spelling of the whole graph. -/
def spell? (p : Program) : Option (List UInt8) :=
  p.spellFrom? p.nodes.size p.root none

end Program

end ByteRegex
