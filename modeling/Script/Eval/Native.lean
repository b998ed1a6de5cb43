/-
# Native functions

Printing writes the display form of a value; with a line feed it writes twice, so
that a full sink may take the text and refuse the line feed. The length of a value
counts characters, elements or names and is reduced to an integer's width.
-/

import Script.Eval.Monad

namespace Script.Native

variable {σ : Type}

/-- Call a native function at a site. -/
def call (site : σ) (native : Native) (argument : Value) : Eval σ Value := do
  match native with
  | print =>
    Eval.act (.write site (← Eval.act (.display argument)))
    return .nil
  | println =>
    Eval.act (.write site (← Eval.act (.display argument)))
    Eval.act (.write site "\n")
    return .nil
  | len =>
    match ← Eval.act (.length? argument) with
    | some length => return .number (.int (Int32.ofNat length))
    | none => Eval.raise (.noLength argument.tag) site
  | str => return .string (← Eval.act (.display argument))

end Script.Native
