import PropertyGraph.Fault

/-!
# Arenas

An arena hands out dense slots. A freed slot goes on a stack and is handed out again, last freed
first, before the arena grows. An arena grown in blocks gives its last block back when no slot in it
is live; the slots of that block stay on the stack, and handing one out brings the block back.
-/

namespace PropertyGraph

/-- How an arena grows: in blocks of a fixed size, or as one block without a bound. -/
inductive Growth where
  | blocks (size : Nat)
  | linear
  deriving DecidableEq, Repr

namespace Growth

def ofBlockSize (size : Nat) : Growth := .blocks (max size 1)

def place : Growth → Nat → Nat × Nat
  | .blocks size, slot => (slot / size, slot % size)
  | .linear, slot => (0, slot)

def blockStart : Growth → Nat → Nat
  | .blocks size, block => block * size
  | .linear, _ => 0

end Growth

namespace Arena

/-- A run of slots, and how many of them are live. -/
structure Block (α : Type) where
  slots : Array (Option α) := #[]
  live : Nat := 0

namespace Block

variable {α : Type}

def get? (block : Block α) (offset : Nat) : Option α :=
  block.slots[offset]?.join

def put (block : Block α) (offset : Nat) (value : α) : Block α :=
  { slots := block.slots.setIfInBounds offset (some value), live := block.live + 1 }

def push (block : Block α) (value : α) : Block α :=
  { slots := block.slots.push (some value), live := block.live + 1 }

def drop (block : Block α) (offset : Nat) : Block α :=
  { slots := block.slots.setIfInBounds offset none, live := block.live - 1 }

def modify (block : Block α) (offset : Nat) (f : α → α) : Block α :=
  { block with slots := block.slots.modify offset (·.map f) }

def map (block : Block α) (f : α → α) : Block α :=
  { block with slots := block.slots.map (·.map f) }

def fillTo (block : Block α) (count : Nat) : Block α :=
  { block with slots := block.slots ++ Array.replicate (count - block.slots.size) none }

end Block

/-- The most slots an arena may have. -/
def maxLength : Nat := (1 <<< 31) - 1

end Arena

/-- Slots handed out densely. `length` counts the slots in the blocks, live or free, and `size` the
live ones. -/
structure Arena (α : Type) where
  growth : Growth
  blocks : Array (Arena.Block α) := #[{}]
  garbage : List Nat := []
  length : Nat := 0
  size : Nat := 0

namespace Arena

variable {α : Type}

def inBlocks (blockSize : Nat) : Arena α := { growth := .ofBlockSize blockSize }

def linear : Arena α := { growth := .linear }

def locate? (a : Arena α) (slot : Nat) : Option (Nat × Nat) :=
  if slot < a.length then some (a.growth.place slot) else none

def blockGet? (a : Arena α) (block offset : Nat) : Option α :=
  a.blocks[block]?.bind (·.get? offset)

def get? (a : Arena α) (slot : Nat) : Option α :=
  match a.locate? slot with
  | some (block, offset) => a.blockGet? block offset
  | none => none

def modify (a : Arena α) (slot : Nat) (f : α → α) : Arena α :=
  match a.locate? slot with
  | some (block, offset) => { a with blocks := a.blocks.modify block (·.modify offset f) }
  | none => a

def map (a : Arena α) (f : α → α) : Arena α :=
  { a with blocks := a.blocks.map (·.map f) }

/-- Brings the blocks given back up to and including the slot's. The slots below it that come back
are free, and they are all on the stack. -/
def regrow (a : Arena α) (slot : Nat) : Arena α :=
  match a.growth with
  | .linear => a
  | .blocks size =>
    let last := slot / size
    let blocks := a.blocks ++ Array.replicate (last + 1 - a.blocks.size) {}
    let first := a.length / size
    { a with
      blocks := blocks.mapIdx fun i block =>
        if i < first then block else block.fillTo (if i = last then slot % size + 1 else size)
      length := slot + 1 }

/-- Fills the free slot at an offset of a block. -/
def fill (a : Arena α) (block offset : Nat) (value : α) : Arena α :=
  match a with
  | { growth, blocks, garbage, length, size } =>
    { growth
      blocks := blocks.modify block (·.put offset value)
      garbage
      length
      size := size + 1 }

/-- Empties the live slot at an offset of a block, and lets it wait for being handed out again. -/
def vacate (a : Arena α) (slot block offset : Nat) : Arena α :=
  match a with
  | { growth, blocks, garbage, length, size } =>
    { growth
      blocks := blocks.modify block (·.drop offset)
      garbage := slot :: garbage
      length
      size := size - 1 }

/-- Adds a live slot behind all others, beginning a block where the last one is full. -/
def append (a : Arena α) (value : α) : Arena α :=
  match a with
  | { growth, blocks, garbage, length, size } =>
    let block := (growth.place length).1
    let blocks := if block = blocks.size then blocks.push {} else blocks
    { growth
      blocks := blocks.modify block (·.push value)
      garbage
      length := length + 1
      size := size + 1 }

/-- Stores the value that `make` gives for its slot, in the slot freed last or in a new slot behind
all others, and says in which. -/
def allocWith (a : Arena α) (make : Nat → α) : Except Fault Nat × Arena α :=
  match a.garbage with
  | slot :: garbage =>
    let a := { a with garbage }
    -- A slot on the stack may lie in a block that was given back since.
    let a := if a.length ≤ slot then a.regrow slot else a
    match a.locate? slot with
    | some (block, offset) => (.ok slot, a.fill block offset (make slot))
    | none => (.error (.garbageOutside slot), a)
  | [] =>
    if maxLength ≤ a.length then (.error (.arenaFull a.length), a)
    else (.ok a.length, a.append (make a.length))

def alloc (a : Arena α) (value : α) : Except Fault Nat × Arena α :=
  a.allocWith fun _ => value

/-- Gives the last block back if none of its slots is live. The first block always stays. -/
def reclaim (a : Arena α) (block : Nat) : Arena α :=
  match a.growth with
  | .linear => a
  | .blocks size =>
    if 0 < block ∧ block + 1 = a.blocks.size ∧ (a.blocks[block]?.map (·.live)) = some 0 then
      { a with blocks := a.blocks.pop, length := block * size }
    else a

/-- Frees a slot and says what it held. Freeing a slot that is not live does nothing. -/
def free (a : Arena α) (slot : Nat) : Option α × Arena α :=
  match a.locate? slot with
  | none => (none, a)
  | some (block, offset) =>
    match a.blockGet? block offset with
    | none => (none, a)
    | some value => (some value, (a.vacate slot block offset).reclaim block)

def clear (a : Arena α) : Arena α := { growth := a.growth }

def isEmpty (a : Arena α) : Bool := a.size == 0

def blockCount (a : Arena α) : Nat := a.blocks.size

def garbageLength (a : Arena α) : Nat := a.garbage.length

def toList (a : Arena α) : List (Nat × α) :=
  a.blocks.toList.zipIdx.flatMap fun (block, b) =>
    block.slots.toList.zipIdx.filterMap fun (value, offset) =>
      value.map (a.growth.blockStart b + offset, ·)

def values (a : Arena α) : List α := a.toList.map (·.2)

/-- The first live slot from `start` on. -/
def nextLive? (a : Arena α) (start : Nat) : Option Nat :=
  if start < a.length then
    if (a.get? start).isSome then some start else a.nextLive? (start + 1)
  else none
termination_by a.length - start

theorem bounds_of_nextLive? {a : Arena α} {start slot : Nat} (h : a.nextLive? start = some slot) :
    start ≤ slot ∧ slot < a.length := by
  fun_induction a.nextLive? start with
  | case1 start hlt _ => simp_all
  | case2 start hlt _ ih => exact ⟨Nat.le_of_succ_le (ih h).1, (ih h).2⟩
  | case3 => simp at h

/-! ### Slots named by callers

A caller may name a slot by any integer. -/

def inRange (a : Arena α) (slot : Int) : Bool :=
  match slot.toNat? with
  | some slot => slot < a.length
  | none => false

def checkRange (a : Arena α) (slot : Int) : Except Fault Nat :=
  match slot.toNat? with
  | some position =>
    if position < a.length then .ok position else .error (.outOfRange slot a.length)
  | none => .error (.outOfRange slot a.length)

def find? (a : Arena α) (slot : Int) : Option α :=
  slot.toNat?.bind a.get?

def release (a : Arena α) (slot : Int) : Option α × Arena α :=
  match slot.toNat? with
  | some slot => a.free slot
  | none => (none, a)

/-- Replaces what the named slot holds, if it is live, and says what it held. -/
def replace (a : Arena α) (slot : Int) (value : α) : Option α × Arena α :=
  match slot.toNat? with
  | some slot => (a.get? slot, a.modify slot fun _ => value)
  | none => (none, a)

end Arena

end PropertyGraph
