/-!
# Sets of slots

A set of slots is a natural number whose bits say which slots are members, so two sets with the same
members are equal.
-/

namespace PropertyGraph

structure IdSet where
  bits : Nat := 0
  deriving DecidableEq, Repr, Inhabited

namespace IdSet

def empty : IdSet := {}

def contains (s : IdSet) (slot : Nat) : Bool := s.bits.testBit slot

def insert (s : IdSet) (slot : Nat) : IdSet := ⟨s.bits ||| 1 <<< slot⟩

def erase (s : IdSet) (slot : Nat) : IdSet := ⟨(s.bits ||| 1 <<< slot) ^^^ 1 <<< slot⟩

def union (s t : IdSet) : IdSet := ⟨s.bits ||| t.bits⟩

def inter (s t : IdSet) : IdSet := ⟨s.bits &&& t.bits⟩

def diff (s t : IdSet) : IdSet := ⟨s.bits ^^^ (s.bits &&& t.bits)⟩

def ofList (slots : List Nat) : IdSet := slots.foldl insert empty

def isEmpty (s : IdSet) : Bool := s.bits == 0

def toList (s : IdSet) : List Nat :=
  (List.range (s.bits.log2 + 1)).filter s.contains

def size (s : IdSet) : Nat := s.toList.length

end IdSet

end PropertyGraph
