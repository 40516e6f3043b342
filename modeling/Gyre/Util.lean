/- digest: Whether a model's text says that its job is complete. -/

import Gyre.Lib.Text

set_option autoImplicit false
set_option relaxedAutoImplicit false

namespace Gyre.Util

open Gyre.Lib

def positivePhrases : List String :=
  ["job is complete", "job is done", "job is finished", "task is complete", "task is done",
    "task is finished", "work is complete", "work is done", "work is finished",
    "successfully completed", "have completed the job", "have completed the task",
    "have finished the job", "have finished the task", "all steps are complete",
    "all steps are done", "i have completed", "i've completed", "all done", "all tasks complete"]

def negativePhrases : List String :=
  ["not complete", "not done", "not finished", "incomplete", "unfinished", "isn't done",
    "isn't complete", "isn't finished", "not yet done", "not yet complete", "not yet finished"]

/-- `llm_signals_completion`. -/
def llmSignalsCompletion (response : String) : Bool :=
  let lower := Text.toLowercase response.toList
  if negativePhrases.any fun p => Text.contains p.toList lower then false
  else positivePhrases.any fun p => Text.contains p.toList lower

end Gyre.Util
