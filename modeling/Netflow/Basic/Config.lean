/-! # The constants of `cdogcore.h` -/

set_option autoImplicit false

namespace Netflow

/-- Client slots. -/
def CLIENTNUM : Nat := 16

/-- Length of the array of received cells; one entry stays without a cell. -/
def CAT2DOGIOMSGNUM : Nat := 4096

/-- Size of a fresh cell's stream. -/
def MSGINITSIZE : Nat := 1024

/-- Length of the two message rings; there is one message cell less. -/
def DOG2CATIOMSGNUM : Nat := 4096

/-- The longest message text: every caller composes its text in a buffer, and the largest is
`char message[4096+512]` of `SendTcp2Cats`. -/
def MESSAGE_MAX : Nat := 4096 + 512 - 1

end Netflow
