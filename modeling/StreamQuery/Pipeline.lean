import StreamQuery.Stage
set_option autoImplicit false

/-!
# Pipelines

Stages run in the order HAVING, COMPUTATION, ORDER BY, CULLING, however they were
declared; stages of one kind keep the order of their declaration.
-/

namespace StreamQuery

/-- Checked stages in the order in which they run. -/
structure Pipeline where
  stages : List Stage
  deriving Inhabited

namespace Pipeline

/-- The kinds of stages in the order in which they run. -/
def kinds : List StageKind := [.having, .computation, .orderBy, .culling]

/-- Stages in the order in which they run. -/
def inOrder (declared : List Stage) : List Stage :=
  kinds.flatMap fun kind => declared.filter fun s => s.kind == kind

/-- Checks stages in the order in which they run. -/
def ofStages (declared : List Stage) : Outcome Pipeline := do
  (inOrder declared).forM Stage.validate
  return ⟨inOrder declared⟩

/-- Whether there is no stage. -/
def isEmpty (p : Pipeline) : Bool := p.stages.isEmpty

/-- Runs the stages one after another, up to the first that fails. -/
def run (p : Pipeline) (b : Batch) : Outcome Batch := p.stages.foldlM Stage.run b

end Pipeline

end StreamQuery
