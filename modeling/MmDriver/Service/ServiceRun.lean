import MmDriver.Common.Exception
import MmDriver.Common.TimerEx
import MmDriver.Service.Service

/-!
# `Run` as one call, and `RegisterMessage`

`src/service/service.cpp`. Here `Run` is the function that the pool calls: it returns or throws,
and so do the hooks, which may change the service's members as they like. The update time, which
is only logged, is left out as before.

`RegisterMessage` works on the member `m_MessageHandlerVec`, a `bsvector` of `boost::function`s
that may be empty.
-/

namespace MmDriver

namespace Service

/-- The hooks that `Run` calls. -/
structure RunHooks where
  init : Throwing Thrown Service Bool
  isStartOk : Throwing Thrown Service Bool
  tick : TimeData → Throwing Thrown Service Unit
  shutdown : Throwing Thrown Service Bool
  isShutdownOk : Throwing Thrown Service Bool

/-- The `switch` of `Run`. -/
def runSwitch (hooks : RunHooks) (rkTimeData : TimeData) : Throwing Thrown Service Unit := do
  match (← get).serviceState with
  | .start =>
    modify (·.setServiceState .startProcess)
    if (← hooks.init) = false then modify (·.setServiceState .startFail)
  | .startProcess => if (← hooks.isStartOk) = true then modify (·.setServiceState .startOk)
  | .startFail => assertEx false
  | .startOk => pure ()
  | .run => hooks.tick rkTimeData
  | .shutdown =>
    modify (·.setServiceState .shutdownProcess)
    let _ ← hooks.shutdown
  | .shutdownProcess => if (← hooks.isShutdownOk) = true then modify (·.setServiceState .shutdownOk)
  | .shutdownOk | .none => pure ()

/-- `Run`. -/
def run (hooks : RunHooks) (rkTimeData : TimeData) : Throwing Thrown Service Unit := do
  modify (·.setRunningState .running)
  enterLeaveFunction (runSwitch hooks rkTimeData)
  modify (·.setRunningState .ready)

/-! ## `RegisterMessage` -/

/-- `MessageID(-1)`. -/
def messageIdEnd : Nat := 65535

/-- `RegisterMessage`. `none` is an empty function, which is what compares equal to `null_ptr`. -/
def registerMessage {α : Type} (nID : Nat) (handler : Option α) :
    Throwing Thrown (List (Option α)) Bool := do
  if nID ≥ messageIdEnd then return false
  if nID > (← get).length then modify (BsVector.resize (nID + 1) none)
  if (← BsVector.get nID).join.isSome then return false
  BsVector.put nID handler
  return true

end Service

end MmDriver
