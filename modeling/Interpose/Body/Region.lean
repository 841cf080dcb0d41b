import Interpose.Body.Basic
/-!
# Regions

The exception handlers of a body as ranges of positions. A range may be empty, also
with its end before its start; then it holds no position.

Results:
* `mem_span_iff`: which positions a span holds.
-/
namespace Interpose

/-- The positions from `start` up to, not including, `stop`. -/
structure Span where
  start : Nat
  stop : Nat
deriving DecidableEq

def Span.contains (s : Span) (pos : Nat) : Bool := s.start ≤ pos && pos < s.stop

theorem mem_span_iff (s : Span) (pos : Nat) :
    s.contains pos = true ↔ s.start ≤ pos ∧ pos < s.stop := by
  simp [Span.contains]

/-- A handler's kind, the range it protects, and the range of its own code. -/
structure Region where
  kind : HandlerKind
  tryRange : Span
  handlerRange : Span
deriving DecidableEq

namespace Body

/-- The positions between two anchors; without an end, up to the end of the body (`Body::range`). -/
def span (b : Body) (start : InstructionId) (stop? : Option InstructionId) :
    Except CodeError Span := do
  let start ← b.anchor start
  match stop? with
  | none => .ok ⟨start, b.size⟩
  | some id => return ⟨start, ← b.anchor id⟩

/-- A handler's ranges. Of two anchors outside the body the first is reported. -/
def region (b : Body) (h : Handler) : Except CodeError Region := do
  let tryRange ← b.span h.tryStart h.tryEnd?
  let handlerRange ← b.span h.handlerStart h.handlerEnd?
  return ⟨h.kind, tryRange, handlerRange⟩

/-- The regions of the handlers, in order. -/
def regionsOf (b : Body) : List Handler → Except CodeError (List Region)
  | [] => .ok []
  | h :: rest => do
    let r ← b.region h
    return r :: (← b.regionsOf rest)

def regions (b : Body) : Except CodeError (List Region) := b.regionsOf b.handlers

end Body

end Interpose
