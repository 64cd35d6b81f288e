namespace FleetConsole

/-- A limit on output, in kilobytes a second. -/
structure RateLimit where
  kbPerSec : UInt32
  deriving DecidableEq, Repr

namespace RateLimit

def defaultLimit : RateLimit := ⟨500⟩

def bytesPerKb : UInt64 := 1000

/-- Length of the window over which the limit holds. -/
def windowMillis : UInt64 := 2500

def windowQuota (limit : RateLimit) : UInt64 :=
  limit.kbPerSec.toUInt64*bytesPerKb*windowMillis/1000

/-- No product on the way to the quota wraps. -/
theorem windowQuota_toNat (limit : RateLimit) :
    limit.windowQuota.toNat=2500*limit.kbPerSec.toNat := by
  have h := limit.kbPerSec.toNat_lt
  simp only [windowQuota,bytesPerKb,windowMillis,UInt64.toNat_div,UInt64.toNat_mul,
    UInt32.toNat_toUInt64,UInt64.reduceToNat]
  omega

end RateLimit

end FleetConsole
