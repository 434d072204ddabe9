import Tenured.Error
import Tenured.Page

/-!
# Configuration

The parameters of a generation: its bounds, the step by which it grows, how new memory is prepared,
and how many workers there are.

* `Config.violation?` is the first rule that a configuration breaks, in a fixed order.
* `Config.default` is the configuration for a machine on which nothing is set.
-/

namespace Tenured

/-- What a configuration may depend on: the machine's memory in bytes, its processors and its
memory nodes. -/
structure Machine where
  memory : Nat
  processors : Nat
  nodes : Nat
deriving DecidableEq

/-- The parameters of a generation. Sizes are in bytes. -/
structure Config where
  /-- The committed size never falls below this by a resize. -/
  minSize : Nat
  /-- The size of the reservation. -/
  maxSize : Nat
  /-- The size committed at the start. -/
  initialSize : Nat
  /-- The unit of commits and releases. -/
  alignment : Nat
  /-- The least number of bytes by which the generation grows, if there is room for them. -/
  leastGrowth : Nat
  /-- Whether growth provides an alignment unit for every memory node. -/
  perNode : Bool
  /-- The number of memory nodes, or `none` to take the machine's. -/
  nodes : Option Nat
  /-- Whether pages are touched at the stride of large pages. -/
  largePages : Bool
  largePageSize : Nat
  /-- Whether every page is touched as soon as it is committed. -/
  touchCommitted : Bool
  /-- Whether unused memory holds the mangle pattern. -/
  mangleUnused : Bool
  /-- A pause after growing for an allocation, in milliseconds. -/
  growthPause : Nat
  /-- The number of workers, or `none` to take the machine's. -/
  workers : Option Nat
  /-- The size of the blocks that are iterated separately. -/
  iterationBlock : Nat
  /-- Whether the capacity figures are kept. -/
  keepFigures : Bool
deriving DecidableEq

namespace Config

/-- The bytes that an entry of the crossing map stands for. -/
def crossingBlockSize : Nat := 512

/-- The sizes that have to be multiples of the alignment. -/
inductive SizeField
  | minSize
  | maxSize
  | initialSize
deriving DecidableEq

/-- The name of a size in messages. -/
def SizeField.name : SizeField → String
  | minSize => "min_size"
  | maxSize => "max_size"
  | initialSize => "initial_size"

/-- The rules that a configuration can break. -/
inductive Violation
  | alignmentNotPowerOfTwo (alignment : Nat)
  | alignmentBelowPage (alignment : Nat)
  | maxSizeZero
  | minAboveMax
  | initialOutsideBounds
  | notMultiple (field : SizeField) (size alignment : Nat)
  | iterationBlock (size : Nat)
  | noWorkers
  | noNodes
  | largePageSize (size : Nat)
deriving DecidableEq

/-- The error that reports a broken rule. -/
def Violation.toError : Violation → Misconfiguration
  | alignmentNotPowerOfTwo a => ⟨.alignment, s!"alignment ({a}) must be a power of two"⟩
  | alignmentBelowPage a =>
    ⟨.alignment, s!"alignment ({a}) must be at least the page size ({Page.size})"⟩
  | maxSizeZero => ⟨.size, "max_size must be > 0"⟩
  | minAboveMax => ⟨.size, "min_size cannot exceed max_size"⟩
  | initialOutsideBounds => ⟨.size, "initial_size must be between min_size and max_size"⟩
  | notMultiple field size a =>
    ⟨.size, s!"{field.name} ({size}) must be a multiple of alignment ({a})"⟩
  | iterationBlock size =>
    ⟨.blockSize, s!"iterate_block_size ({size}) must be a non-zero multiple of {crossingBlockSize}"⟩
  | noWorkers => ⟨.workers, "worker_threads must be > 0"⟩
  | noNodes => ⟨.numa, "numa_groups must be > 0"⟩
  | largePageSize size => ⟨.largePages, s!"large_page_size ({size}) must be a power of two"⟩

/-- The first rule that a configuration breaks. -/
def violation? (c : Config) : Option Violation :=
  if !Rounding.isPowerOfTwo c.alignment then some (.alignmentNotPowerOfTwo c.alignment)
  else if c.alignment < Page.size then some (.alignmentBelowPage c.alignment)
  else if c.maxSize = 0 then some .maxSizeZero
  else if c.maxSize < c.minSize then some .minAboveMax
  else if c.initialSize < c.minSize ∨ c.maxSize < c.initialSize then some .initialOutsideBounds
  else if c.minSize % c.alignment ≠ 0 then some (.notMultiple .minSize c.minSize c.alignment)
  else if c.maxSize % c.alignment ≠ 0 then some (.notMultiple .maxSize c.maxSize c.alignment)
  else if c.initialSize % c.alignment ≠ 0 then
    some (.notMultiple .initialSize c.initialSize c.alignment)
  else if c.iterationBlock = 0 ∨ c.iterationBlock % crossingBlockSize ≠ 0 then
    some (.iterationBlock c.iterationBlock)
  else if c.workers = some 0 then some .noWorkers
  else if c.nodes = some 0 then some .noNodes
  else if c.largePages && !Rounding.isPowerOfTwo c.largePageSize then
    some (.largePageSize c.largePageSize)
  else none

/-- The error for the first rule that a configuration breaks, if it breaks any. -/
def validate (c : Config) : Except Misconfiguration Unit :=
  match c.violation? with
  | some v => .error v.toError
  | none => .ok ()

theorem validate_eq_ok_iff {c : Config} : c.validate = .ok () ↔ c.violation? = none := by
  unfold validate; split <;> simp_all

/-- The workers that a machine gets: one per processor, from one to eight. -/
def defaultWorkers (m : Machine) : Nat :=
  max 1 (min m.processors 8)

/-- The part of a machine's memory that the generation may take: a quarter, at most 32 gigabytes. -/
def memoryShare (memory : Nat) : Nat :=
  min (memory / 4) (32 * 1024 * 1024 * 1024)

/-- The alignment if none is set. -/
def defaultAlignment : Nat :=
  max (64 * 1024) Page.size

/-- The maximum size for a machine with so much memory. -/
def defaultMaxSize (memory : Nat) : Nat :=
  max (Rounding.roundDown (memoryShare memory) defaultAlignment) defaultAlignment

/-- The minimum size below a maximum: four megabytes, if that fits. -/
def defaultMinSize (maxSize : Nat) : Nat :=
  min (max (Rounding.roundDown (4 * 1024 * 1024) defaultAlignment) defaultAlignment) maxSize

/-- The initial size between a minimum and a maximum: a sixty-fourth of the maximum. -/
def defaultInitialSize (minSize maxSize : Nat) : Nat :=
  max (Rounding.roundDown (maxSize / 64) defaultAlignment) minSize

/-- The configuration for a machine on which nothing is set. -/
def default (m : Machine) : Config :=
  let maxSize := defaultMaxSize m.memory
  let minSize := defaultMinSize maxSize
  { minSize
    maxSize
    initialSize := defaultInitialSize minSize maxSize
    alignment := defaultAlignment
    leastGrowth := 128 * 1024
    perNode := false
    nodes := none
    largePages := false
    largePageSize := 2 * 1024 * 1024
    touchCommitted := false
    mangleUnused := true
    growthPause := 0
    workers := some (defaultWorkers m)
    iterationBlock := 1024 * 1024
    keepFigures := true }

/-- The number of workers on a machine. -/
def workerCount (c : Config) (m : Machine) : Nat :=
  c.workers.getD (defaultWorkers m)

/-- The number of memory nodes that growth provides for on a machine. -/
def nodeCount (c : Config) (m : Machine) : Nat :=
  c.nodes.getD m.nodes

/-- The distance between touched addresses. -/
def touchStride (c : Config) : Nat :=
  if c.largePages then c.largePageSize else Page.size

end Config

end Tenured
