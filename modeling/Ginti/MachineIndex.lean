namespace Ginti

/-- An index is a signed integer of 64 bits. Integers of any size can be asked for, and those that
    are no index are refused before anything is looked up. -/
def isMachineIndex (n : Int) : Bool :=
  -0x8000000000000000 ≤ n && n < 0x8000000000000000

end Ginti
