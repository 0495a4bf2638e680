/-
The lifecycle of a component instance.

`legalTransitions` is the table of the source, `transitionComponentLifecycle` the
only function that reads it: it returns the next state where the table allows
it and an error that names both states where it does not.
-/
import TegoNext.Identity

set_option autoImplicit false

namespace TegoNext

open Text

inductive ComponentLifecycleState where
  | created
  | preparing
  | starting
  | ready
  | degraded
  | draining
  | stopping
  | stopped
  | failed
  deriving DecidableEq, Repr

def ComponentLifecycleState.text : ComponentLifecycleState → String
  | created => "created"
  | preparing => "preparing"
  | starting => "starting"
  | ready => "ready"
  | degraded => "degraded"
  | draining => "draining"
  | stopping => "stopping"
  | stopped => "stopped"
  | failed => "failed"

def legalTransitions : ComponentLifecycleState → List ComponentLifecycleState
  | .created => [.preparing, .draining, .failed]
  | .preparing => [.starting, .draining, .failed]
  | .starting => [.ready, .degraded, .draining, .failed]
  | .ready => [.degraded, .draining, .failed]
  | .degraded => [.ready, .draining, .failed]
  | .draining => [.stopping, .failed]
  | .stopping => [.stopped, .failed]
  | .stopped => []
  | .failed => [.draining, .preparing, .starting, .stopping]

structure ComponentTransitionInput where
  pluginId : PortableId
  componentId : PortableId
  current : ComponentLifecycleState
  next : ComponentLifecycleState
  observedAt : JsString

/-- The diagnostic of a rejected transition, code `LIFECYCLE_TRANSITION_INVALID`. -/
structure LifecycleTransitionInvalid where
  message : String
  source : JsString
  componentId : PortableId
  current : ComponentLifecycleState
  next : ComponentLifecycleState
  pluginId : PortableId
  observedAt : JsString
  deriving DecidableEq

def transitionComponentLifecycle (input : ComponentTransitionInput) :
    Except LifecycleTransitionInvalid ComponentLifecycleState :=
  if (legalTransitions input.current).contains input.next then .ok input.next
  else .error
    { message := "Component lifecycle cannot transition from " ++ input.current.text ++ " to " ++
        input.next.text
      source := input.pluginId.text ++ keySeparator :: input.componentId.text
      componentId := input.componentId
      current := input.current
      next := input.next
      pluginId := input.pluginId
      observedAt := input.observedAt }

end TegoNext
