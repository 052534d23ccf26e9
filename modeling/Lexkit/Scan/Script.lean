/-
  Lexkit.Scan.Script — actions written down to be run in order, some of them many times. Each command of
  a script makes one entry: what it came to, the lines it logged, and the scanner it left. A repeated
  command comes to what its last run came to; a failure ends the repetition, and all lines are kept.
-/

import Lexkit.Scan.Action

namespace Lexkit

inductive Command where
  | once (a : Action)
  | times (n : Nat) (c : Command)
  deriving Repr

structure Entry where
  result : Except Failure Answer
  log : List String
  scanner : Scanner

namespace Scanner

/-- `n` more runs after an outcome, unless it failed. -/
def again (f : Scanner → Outcome Answer) : Nat → Outcome Answer → Outcome Answer
  | 0, o => o
  | n + 1, o =>
    match o.result with
    | .error _ => o
    | .ok _ =>
      let r := f o.next
      again f n { r with log := o.log ++ r.log }

def obey : Command → Scanner → Outcome Answer
  | .once a, s => s.perform a
  | .times n c, s => again (obey c) n (s.answer .nothing)

def entries [Printable] (s : Scanner) : List Command → List Entry
  | [] => []
  | c :: more =>
    let o := obey c s
    ⟨o.result, o.log.map s.logLine, o.next⟩ :: o.next.entries more

end Scanner

end Lexkit
