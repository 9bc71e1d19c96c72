/-!
# Printed output

Where the lines go that a program prints: into a text that can be read and cleared, or nowhere.

## Main definitions

* `Output` — the two destinations.
* `Output.printLine`, `Output.text`, `Output.clear` — printing, reading and clearing.
-/

namespace Monkey

/-- Where printed lines go. -/
inductive Output
  /-- Lines are kept, in order, in one text. -/
  | captured (text : String)
  /-- Lines are dropped. -/
  | silent
  deriving Inhabited

namespace Output

/-- Nothing captured yet. -/
def empty : Output := .captured ""

/-- Prints a line and ends it. -/
def printLine (line : String) : Output → Output
  | .captured text => .captured (text ++ line ++ "\n")
  | .silent => .silent

/-- Prints lines in order. -/
def printLines (lines : List String) (output : Output) : Output :=
  lines.foldl (fun output line => output.printLine line) output

/-- Everything captured since the last clearing. -/
def text : Output → String
  | .captured text => text
  | .silent => ""

/-- Drops what was captured. -/
def clear : Output → Output
  | .captured _ => .captured ""
  | .silent => .silent

@[simp] theorem text_clear (output : Output) : output.clear.text = "" := by
  cases output <;> rfl

theorem text_printLine_captured (text line : String) :
    (Output.captured text |>.printLine line).text = text ++ line ++ "\n" := rfl

@[simp] theorem printLines_nil (output : Output) : output.printLines [] = output := rfl

@[simp] theorem printLines_cons (line : String) (lines : List String) (output : Output) :
    output.printLines (line :: lines) = (output.printLine line).printLines lines := rfl

@[simp] theorem printLines_silent (lines : List String) :
    Output.silent.printLines lines = .silent := by
  induction lines with
  | nil => rfl
  | cons line lines ih => simpa [printLine] using ih

end Output

end Monkey
