import Tenured.Generation.Basic

/-!
# Consistency

`Generation.verify` checks that objects lie one after another below the top and that every part fits
the others. `Generation.verifyCrossings` checks that the crossing map finds every object from its
second word.
-/

namespace Tenured.Generation

/-- Checks that the parts of a generation fit each other. -/
def verify (g : Generation) : Except Fault Unit := do
  g.objects.verify g.memory
  let space ← g.objects.extent
  check (g.cards.covered = space) (.cardsMismatch g.cards.covered space)
  check (g.crossings.covered = space) (.crossingsMismatch g.crossings.covered space)
  check (g.reserved.includes space) (.spaceOutsideReserved space g.reserved)
  check (space.size ≤ g.config.maxSize) (.capacityAboveMax space.size g.config.maxSize)
  check (g.cursor.next ≤ space.stop) (.cursorPastEnd g.cursor.next space.stop)

/-- Checks that an object is found from its second word. -/
def verifyStart (g : Generation) (addr : Nat) : Except Fault Unit := do
  check (← g.crossings.hasStart addr) (.noStartInBlock addr)
  let interior ← Word.add addr Object.wordSize
  let found ← g.startOf interior
  check (found = addr) (.wrongStart interior found addr)

/-- Checks that the objects from `addr` up to `top` are found from their second words. -/
def verifyStartsFrom (g : Generation) (top addr : Nat) : Except Fault Unit :=
  if top ≤ addr then return ()
  else
    match g.memory.readWord addr with
    | .error e => throw e
    | .ok 0 => throw (.zeroSizedObject addr)
    | .ok (size + 1) => do
      g.verifyStart addr
      if Word.limit ≤ addr + (size + 1) then throw .overflow
      verifyStartsFrom g top (addr + (size + 1))
termination_by top - addr

/-- Checks that every object is found from its second word. -/
def verifyCrossings (g : Generation) : Except Fault Unit :=
  g.verifyStartsFrom g.objects.top g.objects.bottom

end Tenured.Generation
