import StreamQuery.Expr.Eval
import StreamQuery.Proofs.Outcomes
set_option autoImplicit false

/-!
# Laws of the connectives

Of an operand, a connective uses only its truth or the error with which it has none
(`Expr.truth`), and it does so from left to right, up to the operand that decides.  On such outcomes
the connectives are operations of their own (`bothTrue`, `eitherTrue`), which are associative and
dual under negation; so are AND and OR on expressions, whatever these read or fail with
(`Expr.connectives_laws`).
-/

namespace StreamQuery

/-! ## Connectives of outcomes -/

namespace Truth

/-- A conjunction from left to right: the right side counts where the left one is not false. -/
def bothTrue (x y : Outcome Truth) : Outcome Truth := do
  let a ← x
  if a = some false then return some false
  return a.and (← y)

/-- A disjunction from left to right: the right side counts where the left one is not true. -/
def eitherTrue (x y : Outcome Truth) : Outcome Truth := do
  let a ← x
  if a = some true then return some true
  return a.or (← y)

variable (x y z : Outcome Truth)

theorem map_not_map_not : (x.map not).map not = x := by
  rcases x with e | _ | _ | _ <;> rfl

/-- What decides a conjunction decides, negated, the disjunction of the negations. -/
theorem map_not_bothTrue : (bothTrue x y).map not = eitherTrue (x.map not) (y.map not) := by
  -- Each side fails, or is unknown, false or true.
  rcases x with e | _ | _ | _ <;> rcases y with e' | _ | _ | _ <;> rfl

theorem eitherTrue_eq : eitherTrue x y = (bothTrue (x.map not) (y.map not)).map not := by
  rw [map_not_bothTrue, map_not_map_not, map_not_map_not]

theorem map_not_eitherTrue : (eitherTrue x y).map not = bothTrue (x.map not) (y.map not) := by
  rw [eitherTrue_eq, map_not_map_not]

theorem bothTrue_assoc : bothTrue (bothTrue x y) z = bothTrue x (bothTrue y z) := by
  rcases x with e | _ | _ | _ <;> rcases y with e' | _ | _ | _ <;>
    rcases z with e'' | _ | _ | _ <;> rfl

theorem eitherTrue_assoc : eitherTrue (eitherTrue x y) z = eitherTrue x (eitherTrue y z) := by
  rw [eitherTrue_eq (eitherTrue x y), map_not_eitherTrue, bothTrue_assoc, eitherTrue_eq x,
    map_not_eitherTrue]

theorem truth_toValue (t : Truth) : t.toValue.truth = .ok t := by
  rcases t with _ | _ | _ <;> rfl

end Truth

/-! ## Connectives of expressions -/

namespace Expr

open Truth

variable (lookup : Lookup) (r : Record)

/-- The truth of an expression as an operand of a connective. -/
def truth (e : Expr) : Outcome Truth := do
  let v ← e.eval lookup r
  v.truth

variable {lookup r} {e : Expr} {x : Outcome Truth}

/-- An expression whose value is that of a truth has this truth. -/
theorem truth_of_eval (h : e.eval lookup r = x.map toValue) : e.truth lookup r = x := by
  rw [truth, h]
  cases x with
  | error fault => rfl
  | ok t => exact truth_toValue t

variable (lookup r) (a b c : Expr)

theorem eval_not :
    (unary .not a).eval lookup r = ((a.truth lookup r).map Truth.not).map toValue := by
  have heval : (unary .not a).eval lookup r = do
      let t ← a.truth lookup r
      return t.not.toValue := by
    simp only [eval, truth, bind_assoc]
  rw [heval]
  cases a.truth lookup r <;> rfl

theorem eval_and : (binary a .and b).eval lookup r
    = (bothTrue (a.truth lookup r) (b.truth lookup r)).map toValue := by
  have heval : (binary a .and b).eval lookup r = do
      let t ← a.truth lookup r
      if t = some false then return .boolean false
      return (t.and (← b.truth lookup r)).toValue := by
    simp only [eval, truth, bind_assoc]
  rw [heval]
  rcases a.truth lookup r with fault | _ | _ | _ <;> cases b.truth lookup r <;> rfl

theorem eval_or : (binary a .or b).eval lookup r
    = (eitherTrue (a.truth lookup r) (b.truth lookup r)).map toValue := by
  have heval : (binary a .or b).eval lookup r = do
      let t ← a.truth lookup r
      if t = some true then return .boolean true
      return (t.or (← b.truth lookup r)).toValue := by
    simp only [eval, truth, bind_assoc]
  rw [heval]
  rcases a.truth lookup r with fault | _ | _ | _ <;> cases b.truth lookup r <;> rfl

theorem truth_not : (unary .not a).truth lookup r = (a.truth lookup r).map Truth.not :=
  truth_of_eval (eval_not lookup r a)

theorem truth_and :
    (binary a .and b).truth lookup r = bothTrue (a.truth lookup r) (b.truth lookup r) :=
  truth_of_eval (eval_and lookup r a b)

theorem truth_or :
    (binary a .or b).truth lookup r = eitherTrue (a.truth lookup r) (b.truth lookup r) :=
  truth_of_eval (eval_or lookup r a b)

/-- NOT takes AND to OR and back, and AND and OR are associative, with the same value, the same NULL
or the same error on both sides: both reach the same operands, and the same one decides or fails. -/
theorem connectives_laws :
    (unary .not (binary a .and b)).eval lookup r
        = (binary (unary .not a) .or (unary .not b)).eval lookup r ∧
      (unary .not (binary a .or b)).eval lookup r
        = (binary (unary .not a) .and (unary .not b)).eval lookup r ∧
      (binary (binary a .and b) .and c).eval lookup r
        = (binary a .and (binary b .and c)).eval lookup r ∧
      (binary (binary a .or b) .or c).eval lookup r
        = (binary a .or (binary b .or c)).eval lookup r := by
  refine ⟨?_, ?_, ?_, ?_⟩
  · rw [eval_not, truth_and, map_not_bothTrue, eval_or, truth_not, truth_not]
  · rw [eval_not, truth_or, map_not_eitherTrue, eval_and, truth_not, truth_not]
  · rw [eval_and, truth_and, bothTrue_assoc, eval_and, truth_and]
  · rw [eval_or, truth_or, eitherTrue_assoc, eval_or, truth_or]

/-- Operands cannot change places: an absent field fails in front of the operand that decides, and
is not reached behind it. -/
example :
    (binary (column "f") .and (literal "false" .boolean)).eval Record.lookup .empty
        = .error (.lookup "f" .absent) ∧
      (binary (literal "false" .boolean) .and (column "f")).eval Record.lookup .empty
        = .ok (.boolean false) :=
  ⟨rfl, rfl⟩

end Expr

end StreamQuery
