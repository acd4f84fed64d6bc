import StreamQuery.Proofs.Expr.Congruence
set_option autoImplicit false

/-!
# What a schema adds

A schema changes what a look-up finds in one way only: it refuses a declared field whose value is of
another kind (`Schema.lookup_eq_or`).  An expression stops where it did or at such a field, as long
as it holds no test for NULL, which takes the refusal for NULL (`Expr.eval_schema`).
-/

namespace StreamQuery

/-! ## Look-ups that are diverted -/

/-- The second outcome is the first one, or one of certain errors in its place. -/
def Diverts (D : QueryError → Prop) (α : Type) (x y : Outcome α) : Prop :=
  y = x ∨ ∃ e, y = .error e ∧ D e

theorem propagates_diverts (D : QueryError → Prop) : Propagates (Diverts D) where
  refl _ := .inl rfl
  bind := by
    rintro α β x y f g (rfl | ⟨e, rfl, he⟩) hfg
    · cases y with
      | error e => exact .inl rfl
      | ok a => exact hfg a
    · exact .inr ⟨e, rfl, he⟩

namespace Schema

/-- A field is declared to be of one kind and holds a value of another one that is not NULL. -/
def Mistypes (s : Schema) (r : Record) (field : String) (declared held : Kind) : Prop :=
  s.kind? field = some declared ∧
    ∃ v, Record.lookup field r = .ok v ∧ v.isNull = false ∧ v.kind = held ∧ held ≠ declared

/-- A look-up finds what is there, or refuses it for its kind. -/
theorem lookup_eq_or (s : Schema) (r : Record) (name : String) :
    s.lookup name r = Record.lookup name r ∨
      ∃ declared held, s.Mistypes r name declared held ∧
        s.lookup name r = .error (.lookup name (.kindDiffers declared held)) := by
  cases hv : Record.lookup name r with
  | error e =>
    left
    rw [lookup, hv]
    rfl
  | ok v =>
    cases hdeclared : s.kind? name with
    | none =>
      left
      simp [lookup, hv, hdeclared, bind, Except.bind]
    | some declared =>
      by_cases hkind : v.isNull = true ∨ v.kind = declared
      · left
        simp [lookup, hv, hdeclared, hkind, bind, Except.bind]
      · right
        refine ⟨declared, v.kind, ⟨hdeclared, v, hv, ?_, rfl, ?_⟩, ?_⟩
        · exact Bool.eq_false_iff.2 fun hnull => hkind (.inl hnull)
        · exact fun hsame => hkind (.inr hsame)
        · simp [lookup, hv, hdeclared, hkind, bind, Except.bind]

end Schema

/-! ## Expressions -/

namespace Expr

/-- A schema only adds look-up errors.  An expression without tests for NULL has the same outcome
with it as without it, or fails at a field of the expression that is declared and holds a value of
another kind.  Where no field of an expression is such a one, the schema makes no difference. -/
theorem eval_schema (s : Schema) (r : Record) (e : Expr) :
    (e.nullTests = [] → e.eval s.lookup r = e.eval Record.lookup r ∨
        ∃ name ∈ e.referencedFields, ∃ declared held, s.Mistypes r name declared held ∧
          e.eval s.lookup r = .error (.lookup name (.kindDiffers declared held))) ∧
      ((∀ name ∈ e.referencedFields, ∀ declared held, ¬ s.Mistypes r name declared held) →
        e.eval s.lookup r = e.eval Record.lookup r) := by
  constructor
  · intro hnone
    let D (fault : QueryError) : Prop := ∃ name ∈ e.referencedFields, ∃ declared held,
      s.Mistypes r name declared held ∧ fault = .lookup name (.kindDiffers declared held)
    have hrelated : Diverts D Value (e.eval Record.lookup r) (e.eval s.lookup r) := by
      refine eval_related (propagates_diverts D) (fun name hname => ?_) (by simp [hnone])
      rcases s.lookup_eq_or r name with h | ⟨declared, held, hmistypes, h⟩
      · exact .inl h
      · exact .inr ⟨_, h, name, List.mem_eraseDups.2 hname, declared, held, hmistypes, rfl⟩
    rcases hrelated with h | ⟨_, h, name, hname, declared, held, hmistypes, rfl⟩
    · exact .inl h
    · exact .inr ⟨name, hname, declared, held, hmistypes, h⟩
  · intro htyped
    refine eval_related propagates_eq (fun name hname => ?_) fun x _ h => congrArg testNull h
    rcases s.lookup_eq_or r name with h | ⟨declared, held, hmistypes, -⟩
    · exact h
    · exact absurd hmistypes (htyped name (List.mem_eraseDups.2 hname) declared held)

/-- A quantity, and a price that is a text. -/
def quoted : Record := .ofList [("qty", .long 3), ("price", .string "ten")]

/-- Prices are numbers. -/
def numericPrice : Schema := .ofList [("price", .long)]

/-- Whether many were sold for little. -/
def bargain : Expr :=
  binary (binary (column "qty") .greaterThan (literal "1" .long)) .and
    (binary (column "price") .lessThan (literal "5" .long))

/-- The comparison fails by itself, and with the schema for the kind of the price; the quantity is
not declared. -/
theorem eval_schema_quoted :
    bargain.nullTests = [] ∧
      (bargain.eval numericPrice.lookup quoted = bargain.eval Record.lookup quoted ∨
        ∃ name ∈ bargain.referencedFields, ∃ declared held,
          numericPrice.Mistypes quoted name declared held ∧
            bargain.eval numericPrice.lookup quoted
              = .error (.lookup name (.kindDiffers declared held))) ∧
      (∀ name ∈ (column "qty").referencedFields, ∀ declared held,
        ¬ numericPrice.Mistypes quoted name declared held) ∧
      (column "qty").eval numericPrice.lookup quoted
        = (column "qty").eval Record.lookup quoted := by
  have hnone : bargain.nullTests = [] := rfl
  have hfields : (column "qty").referencedFields = ["qty"] := by decide +kernel
  have htyped : ∀ name ∈ (column "qty").referencedFields, ∀ declared held,
      ¬ numericPrice.Mistypes quoted name declared held := by
    rw [hfields]
    intro name hname declared held hmistypes
    obtain rfl := List.mem_singleton.1 hname
    cases hmistypes.1
  exact ⟨hnone, (eval_schema _ _ _).1 hnone, htyped, (eval_schema _ _ _).2 htyped⟩

/-- A test for NULL takes the refusal of the schema for NULL. -/
example :
    (unary .isNull (column "price")).eval numericPrice.lookup quoted = .ok (.boolean true) ∧
      (unary .isNull (column "price")).eval Record.lookup quoted = .ok (.boolean false) :=
  ⟨rfl, rfl⟩

end Expr

end StreamQuery
