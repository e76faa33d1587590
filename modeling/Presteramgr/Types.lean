import Mathlib.Data.BitVec

/-!
# Common types

The values of `enum status` that the modelled functions return, addresses, and the size of packets.
-/

namespace Presteramgr

/-- `enum status`. -/
inductive Status
  | ST_OK
  | ST_BAD_FORMAT
  | ST_BAD_VALUE
  | ST_BAD_STATE
  | ST_ALREADY_EXISTS
  | ST_DOES_NOT_EXIST
  | ST_HEX
  | ST_NOT_READY
  | ST_REMOTE
  | ST_HW_ERROR
  | ST_BUSY
deriving DecidableEq, Repr

/-- What CPSS returns: success, a failure of the hardware, or another one. -/
inductive GtStatus
  | GT_OK
  | GT_HW_ERROR
  | other
deriving DecidableEq, Repr

/-- `TIPC_MSG_MAX_LEN`, the size of the buffers for packets to other units. -/
def TIPC_MSG_MAX_LEN : ℕ := 11900

/-- An IPv4 address. -/
abbrev Ip4 := BitVec 32

/-- An IPv6 address, the byte `arIP[0]` being the most significant. -/
abbrev Ip6 := BitVec 128

/-- A MAC address. -/
abbrev Mac := BitVec 48

end Presteramgr
