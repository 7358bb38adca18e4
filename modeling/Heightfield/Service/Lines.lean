import Heightfield.Service.Request
import Heightfield.Text.Blank
/-!
# Serving lines

Requests come one on a line, and each is answered on a line of its own, in order.  Blank
lines have no answer, and no line matters for the answer to another.
-/

namespace Heightfield

namespace Service

/-- The lines of a text, without the line ends; what follows the last line end is a line if
it is not empty. -/
def lines : List Char → List (List Char)
  | [] => []
  | c :: s =>
    if c = '\n' then [] :: lines s
    else match lines s with
      | [] => [[c]]
      | l :: ls => (c :: l) :: ls

/-- The answer to a line, if it is not blank. -/
def answerLine? (settings : Settings) (line : List Char) : Option Json :=
  let request := trim line
  if request.isEmpty then none else some (answer settings request)

/-- The answers to the lines of a text. -/
def answers (settings : Settings) (text : List Char) : List Json :=
  (lines text).filterMap (answerLine? settings)

/-- The answers as text, one on a line. -/
def serve (settings : Settings) (text : List Char) : List Char :=
  (answers settings text).flatMap fun j => Json.write j ++ ['\n']

end Service

end Heightfield
