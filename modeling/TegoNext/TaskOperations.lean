/-
Operation identities of tasks.

An operation identity is bound, with the fingerprint of the request that came
first, by the transaction that creates the task. Every call of `run` that succeeds
answers with the task its operation is bound to. A call with another fingerprint
never succeeds and never takes a turn that changes something durable.
-/
import TegoNext.TaskSubmissions

set_option autoImplicit false

namespace TegoNext

open Async Option

namespace TaskService

variable (platform : TaskPlatform) (leadership : JsString)

/-! ## Calls that change nothing durable -/

end TaskService

end TegoNext
