import Tenured.Attempt
import Tenured.Memory.Basic

/-!
# Mappings

A mapping is a range of pages that the system has set aside. The system decides where it lies, or
refuses it and says why. Pages that are not needed can be given back at any time: they stay in the
mapping and read as zero when they are next used.

* `Mapping.wordAt_giveBack`: giving pages back changes no word outside them.
-/

namespace Tenured

/-- What the system decides about mappings. -/
structure AddressSpace where
  /-- Where a mapping of so many bytes is placed, or why it is refused. -/
  place : Nat → Except String Nat
  /-- The answer to bytes given back from an address that is no page's. -/
  notAtPage : String

/-- The address space in which every mapping of less than 2^47 bytes lies at the same address, and
longer ones are refused: those that no system can be asked for, and those for which there is no
room. -/
def AddressSpace.ofBase (base : Nat) : AddressSpace where
  place size :=
    if 9223372036854775807 < size then .error "memory map length overflows isize"
    else if 140737488355328 ≤ size then .error "Cannot allocate memory (os error 12)"
    else .ok base
  notAtPage := "Invalid argument (os error 22)"

/-- A range of pages set aside by the system. -/
structure Mapping where
  base : Nat
  size : Nat
  /-- The system's answer to bytes given back from an address that is no page's. -/
  notAtPage : String
deriving DecidableEq, Inhabited

namespace Mapping

/-- A mapping of at least so many bytes. -/
def obtain (sys : AddressSpace) (bytes : Nat) : Attempt Mapping := do
  if bytes = 0 then throw (.invalidArgument "cannot reserve an empty mapping")
  let size ← Page.roundUp bytes
  match sys.place size with
  | .ok base => return ⟨base, size, sys.notAtPage⟩
  | .error reason => throw (.virtualMemory s!"Failed to reserve {size} bytes: {reason}")

/-- Whether an address lies in a mapping. -/
def contains (mp : Mapping) (addr : Nat) : Bool :=
  mp.base ≤ addr && addr < mp.base + mp.size

/-- Whether `len` bytes from an address on lie in a mapping. -/
def containsBytes (mp : Mapping) (addr len : Nat) : Bool :=
  addr + len < Word.limit && mp.base ≤ addr && addr + len ≤ mp.base + mp.size

/-- Memory after the pages of a range were given back. -/
def giveBack (mp : Mapping) (addr len : Nat) (m : Memory) : Except Error Memory :=
  if len = 0 then .ok m
  else if !mp.containsBytes addr len then
    .error (.invalidArgument s!"range {Text.hex addr}+{len} outside mapping")
  else if addr % Page.size ≠ 0 then
    .error (.virtualMemory s!"madvise(MADV_DONTNEED) failed: {mp.notAtPage}")
  else .ok (m.release (addr / Page.size) (Page.count len))

/-- A mapping with its base and its size. -/
def describe (mp : Mapping) : String :=
  "ReservedMapping \x7b base: " ++ Text.hex mp.base ++ ", size: " ++ toString mp.size ++ " \x7d"

theorem wordAt_giveBack {mp : Mapping} {addr len : Nat} {m m' : Memory}
    (h : mp.giveBack addr len m = .ok m') {i : Nat}
    (hi : i / Memory.pageWords < addr / Page.size ∨
      addr / Page.size + Page.count len ≤ i / Memory.pageWords) : m'.wordAt i = m.wordAt i := by
  unfold giveBack at h
  grind [Memory.wordAt_release]

end Mapping

end Tenured
