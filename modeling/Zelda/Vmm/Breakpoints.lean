import Zelda.Vmm.ArrayMacros
import Zelda.Vmm.Hart
/-!
# Breakpoints of the debugger
-/

namespace Zelda.Vmm

def MAX_BREAKPOINTS : Nat := 256

/-- `addr_cmp`. -/
def addrCmp (addr0 addr1 : Word) : Int :=
  (addr0 - addr1).toInt

/-- `is_address_breakpoint` on the occupied part of `breakpoints`. -/
def isAddressBreakpoint (breakpoints : List Word) (guestAddr : Word) : Bool :=
  (ArrayMacros.search breakpoints addrCmp guestAddr).join.isSome

/-- `add_breakpoint`: the return code and the occupied part of `breakpoints` afterwards. -/
def addBreakpoint (breakpoints : List Word) (guestAddr : Word) : Int × List Word :=
  if guestAddr &&& 0x3 ≠ 0 then (-2, breakpoints)
  else if MAX_BREAKPOINTS ≤ breakpoints.length then (-1, breakpoints)
  else if isAddressBreakpoint breakpoints guestAddr then (0, breakpoints)
  else
    let breakpoints := breakpoints ++ [guestAddr]
    (0, (ArrayMacros.insertionSort breakpoints addrCmp).getD breakpoints)

end Zelda.Vmm
