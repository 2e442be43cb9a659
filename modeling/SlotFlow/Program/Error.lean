/-!
# Why there is no program for a workflow
-/

namespace SlotFlow

/-- Why a workflow cannot be made a program of, or executed. -/
inductive GenerationError where
  | unsupportedBlock (block kind : String)
  | invalidClassName (name : String)
  | missingStepSource (loop : String)
  deriving DecidableEq, Repr

/-- The wording of an error. -/
def GenerationError.message : GenerationError → String
  | unsupportedBlock block kind =>
    s!"Block '{block}' of kind {kind} has no code generation support"
  | invalidClassName name => s!"'{name}' is not a valid class name"
  | missingStepSource loop =>
    s!"Time loop '{loop}' has neither a connected max_dt slot nor " ++
      "a contained model to query for a time step"

end SlotFlow
