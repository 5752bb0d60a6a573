import Parley.Session.Job
import Parley.Settings.Basic

/-!
# Engines

An engine answers prompts. What it does for one prompt is a job, which the session may give up
wherever it pauses.
-/

set_option autoImplicit false

namespace Parley

structure Memory where
  prompts : List String := []
  clears : Nat := 0
  deriving DecidableEq, Repr

abbrev Response := Job Unit

structure Engine where
  respond : Settings → String → Response
  clear : Memory → Memory

namespace Engine

/-- The words of a prompt, one message each, with a pause after each unless the delay is zero; all
but the last are followed by a blank. -/
def chunks (delay : Nat) (last : Response) : List String → Response
  | [] => last
  | w :: ws =>
    let chunk : Outgoing := { data := .text w }
    let chunk := if ws.isEmpty then chunk else chunk.withEnd " "
    let rest := chunks delay last ws
    .send chunk (if delay = 0 then rest else .sleep delay rest)

/-- Streams each prompt back word by word. -/
def echo : Engine where
  respond settings prompt :=
    chunks settings.streamDelay (.record prompt (.finish ())) (Text.words prompt)
  clear m := { m with prompts := [] }

def countClear (m : Memory) : Memory := { m with clears := m.clears + 1 }

/-- Remembers each prompt and answers that it was heard. -/
def recording : Engine where
  respond _ prompt := .record prompt (.send { data := .text ("heard: " ++ prompt) } (.finish ()))
  clear := countClear

/-- Remembers each prompt and fails. -/
def failing (reason : String) : Engine where
  respond _ prompt := .record prompt (.fail (.engine reason))
  clear := countClear

def stalling : Engine where
  respond _ prompt := .record prompt (.send { data := .text "thinking" } .stall)
  clear := countClear

def broken (e : Error) : Engine where
  respond _ _ := .fail e
  clear m := m

def busy : Engine where
  respond _ prompt := .send { data := .text ("working on " ++ prompt) } .stall
  clear m := m

end Engine
end Parley
