/-!
# Status codes and delegate actions
-/

namespace Tulips

/-- The outcome of an operation. -/
inductive Status
  | ok
  | invalidArgument
  | hardwareError
  | noMoreResources
  | hardwareLinkLost
  | noDataAvailable
  | corruptedData
  | incompleteData
  | unsupportedData
  | protocolError
  | unsupportedProtocol
  | hardwareTranslationMissing
  | invalidConnection
  | notConnected
  | operationInProgress
  | operationCompleted
  | unsupportedOperation
  deriving DecidableEq, Repr

theorem Status.noMoreResources_ne_ok : Status.noMoreResources ≠ .ok := by decide

theorem Status.hardwareError_ne_ok : Status.hardwareError ≠ .ok := by decide

/-- The status of an operation that has failed. -/
abbrev Failure := { ret : Status // ret ≠ .ok }

/-- What a delegate asks for when one of its data callbacks returns. -/
inductive Action
  | abort
  | close
  | «continue»
  deriving DecidableEq, Repr

end Tulips
