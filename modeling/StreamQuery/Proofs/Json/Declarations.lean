import StreamQuery.Expansion.Json
import StreamQuery.Pipeline
import StreamQuery.Proofs.Json.Nesting
import StreamQuery.Stage.Json
set_option autoImplicit false

/-!
# Reading back declarations

Expressions, stages and expansions are read back as they were written, whatever texts they are made
of and however their reader comes by them: from the text as it goes by, or from a tree that was
parsed before (`Declarations.restored`).  A declaration that nests too deep for its text to be read
is refused.
-/

namespace StreamQuery

open Json

/-! ## Expressions -/

namespace Expr

variable (r : Json.Reading)

theorem ofJson?_tooDeep : ofJson? r tooDeep = none := by
  rw [ofJson?]
  split <;> simp_all [variant?]

theorem ofJson?_ofVariant_tooDeep (name : String) : ofJson? r (ofVariant name tooDeep) = none := by
  have hexpr := ofJson?_tooDeep r
  have hstring : tooDeep.asString? = none := rfl
  have hfields (fields : List (String × Presence)) : tooDeep.contentFields? r fields = none := by
    rw [contentFields?]
    split <;> rfl
  rw [ofJson?]
  split <;> simp_all [variant?_ofVariant]

theorem ofJson?_column (content : Json) :
    ofJson? r (ofVariant "Column" content) = content.asString?.map column := by
  rw [ofJson?]
  split <;> simp_all [variant?_ofVariant]

theorem ofJson?_sizeOf (content : Json) :
    ofJson? r (ofVariant "SizeOf" content) = content.asString?.map sizeOf := by
  rw [ofJson?]
  split <;> simp_all [variant?_ofVariant]

theorem ofJson?_nested (content : Json) :
    ofJson? r (ofVariant "Nested" content) = (ofJson? r content).map nested := by
  rw [ofJson?]
  split <;> simp_all [variant?_ofVariant]

theorem ofJson?_literal (text kind : Json) :
    ofJson? r (ofVariant "Literal" (ofMembers [("value", text), ("kind", kind)])) = do
      let text ← text.asString?
      let kind ← Kind.ofJson? r kind
      return literal text kind := by
  have hfields : (ofMembers [("value", text), ("kind", kind)]).contentFields? r
      [("value", .required), ("kind", .required)] = some [some text, some kind] :=
    contentFields?_ofMembers r rfl (by simp)
  rw [ofJson?]
  split <;> simp_all [variant?_ofVariant]

theorem ofJson?_binary (left op right : Json) :
    ofJson? r (ofVariant "BinaryOp" (ofMembers [("left", left), ("op", op), ("right", right)])) = do
      let left ← ofJson? r left
      let op ← op.asName? r BinaryOperator.ofDeclaredName?
      let right ← ofJson? r right
      return binary left op right := by
  have hfields : (ofMembers [("left", left), ("op", op), ("right", right)]).contentFields? r
      [("left", .required), ("op", .required), ("right", .required)]
      = some [some left, some op, some right] :=
    contentFields?_ofMembers r rfl (by simp)
  rw [ofJson?]
  split <;> simp_all [variant?_ofVariant]
  split <;> simp_all

theorem ofJson?_unary (op operand : Json) :
    ofJson? r (ofVariant "UnaryOp" (ofMembers [("op", op), ("expr", operand)])) = do
      let op ← op.asName? r UnaryOperator.ofDeclaredName?
      let operand ← ofJson? r operand
      return unary op operand := by
  have hfields : (ofMembers [("op", op), ("expr", operand)]).contentFields? r
      [("op", .required), ("expr", .required)] = some [some op, some operand] :=
    contentFields?_ofMembers r rfl (by simp)
  rw [ofJson?]
  split <;> simp_all [variant?_ofVariant]
  split <;> simp_all

theorem ofJson?_cast (operand kind : Json) :
    ofJson? r (ofVariant "Cast" (ofMembers [("expr", operand), ("kind", kind)])) = do
      let operand ← ofJson? r operand
      let kind ← Kind.ofJson? r kind
      return cast operand kind := by
  have hfields : (ofMembers [("expr", operand), ("kind", kind)]).contentFields? r
      [("expr", .required), ("kind", .required)] = some [some operand, some kind] :=
    contentFields?_ofMembers r rfl (by simp)
  rw [ofJson?]
  split <;> simp_all [variant?_ofVariant]
  split <;> simp_all

/-- An expression is read back, by induction on the tree: every node needs room for its alternative
and, if it has several parts, for the structure that holds them. -/
theorem readsBack (e : Expr) : ReadsBack (ofJson? r) e.toJson e := by
  induction e with
  | column name =>
    refine .variant (ofJson?_tooDeep r) (.leaf (written_ofString 0 name) ?_)
    rw [ofJson?_column, asString?_ofString]
    rfl
  | sizeOf field =>
    refine .variant (ofJson?_tooDeep r) (.leaf (written_ofString 0 field) ?_)
    rw [ofJson?_sizeOf, asString?_ofString]
    rfl
  | nested inner ih =>
    refine .variant (ofJson?_tooDeep r) ⟨ih.written, fun room => ?_⟩
    rw [ofJson?_nested, ih.read_cut]
    split <;> rfl
  | literal text kind =>
    refine .variant (ofJson?_tooDeep r)
      (.members ?_ (ofJson?_ofVariant_tooDeep r _) fun room => ?_)
    · simp [Kind.toJson, written_ofString]
    · simp only [List.map_cons, List.map_nil, Kind.toJson, cut_ofString]
      rw [ofJson?_literal, asString?_ofString, Kind.ofJson?, asName?_ofString,
        Kind.ofDeclaredName?_declaredName]
      simp [depth_ofString]
  | binary left op right ihl ihr =>
    refine .variant (ofJson?_tooDeep r)
      (.members ?_ (ofJson?_ofVariant_tooDeep r _) fun room => ?_)
    · simp [ihl.written, ihr.written, written_ofString]
    · simp only [List.map_cons, List.map_nil, cut_ofString]
      rw [ofJson?_binary, ihl.read_cut, ihr.read_cut, asName?_ofString,
        BinaryOperator.ofDeclaredName?_declaredName]
      by_cases hl : left.toJson.depth ≤ room <;> by_cases hr : right.toJson.depth ≤ room <;>
        simp [hl, hr, depth_ofString]
  | unary op operand ih =>
    refine .variant (ofJson?_tooDeep r)
      (.members ?_ (ofJson?_ofVariant_tooDeep r _) fun room => ?_)
    · simp [ih.written, written_ofString]
    · simp only [List.map_cons, List.map_nil, cut_ofString]
      rw [ofJson?_unary, ih.read_cut, asName?_ofString,
        UnaryOperator.ofDeclaredName?_declaredName]
      by_cases h : operand.toJson.depth ≤ room <;> simp [h, depth_ofString]
  | cast operand kind ih =>
    refine .variant (ofJson?_tooDeep r)
      (.members ?_ (ofJson?_ofVariant_tooDeep r _) fun room => ?_)
    · simp [ih.written, Kind.toJson, written_ofString]
    · simp only [List.map_cons, List.map_nil, Kind.toJson, cut_ofString]
      rw [ofJson?_cast, ih.read_cut, Kind.ofJson?, asName?_ofString,
        Kind.ofDeclaredName?_declaredName]
      by_cases h : operand.toJson.depth ≤ room <;> simp [h, depth_ofString]

end Expr

/-! ## Stages -/

theorem ComputedField.readsBack (r : Json.Reading) (f : ComputedField) :
    ReadsBack (ofJson? r) f.toJson f := by
  have hexpression := f.expression.readsBack r
  refine .members ?_ rfl fun room => ?_
  · simp [hexpression.written, written_ofString]
  · have hfields : (ofMembers [("name", .ofString f.name),
        ("expression", f.expression.toJson.cut room)]).fields?
        [("name", .required), ("expression", .required)]
        = some [some (.ofString f.name), some (f.expression.toJson.cut room)] :=
      fields?_ofMembers rfl (by simp)
    simp only [List.map_cons, List.map_nil, cut_ofString, ofJson?, hfields, asString?_ofString,
      hexpression.read_cut]
    by_cases h : f.expression.toJson.depth ≤ room <;> simp [h, depth_ofString]

theorem SortKey.readsBack (r : Json.Reading) (k : SortKey) : ReadsBack (ofJson? r) k.toJson k := by
  have hexpression := k.expression.readsBack r
  refine .members ?_ rfl fun room => ?_
  · simp [hexpression.written, written_ofString]
  · have hfields : (ofMembers [("expression", k.expression.toJson.cut room),
        ("direction", .ofString k.direction.declaredName)]).fields?
        [("expression", .required), ("direction", .optional)]
        = some [some (k.expression.toJson.cut room),
          some (.ofString k.direction.declaredName)] :=
      fields?_ofMembers rfl (by simp)
    simp only [List.map_cons, List.map_nil, cut_ofString, ofJson?, hfields, hexpression.read_cut,
      readDirection, asName?_ofString, Direction.ofDeclaredName?_declaredName]
    by_cases h : k.expression.toJson.depth ≤ room <;> simp [h, depth_ofString]

namespace Stage

variable (r : Json.Reading)

theorem ofJson?_ofTagged (kind : StageKind) (spec : Json) :
    ofJson? r (ofTagged "type" kind.declaredName "spec" spec) = specOfJson? r kind spec := by
  simp [ofJson?, tagged?_ofTagged, StageKind.ofDeclaredName?_declaredName]

/-- A specification of one field is read if the field is. -/
theorem readsBack_single {β : Type} {read : Json → Option β} {j : Json} {b : β}
    (h : ReadsBack read j b) (field : String) (build : β → Stage) :
    ReadsBack (fun spec => match spec.namedFields? [(field, .required)] with
      | some [some found] => (read found).map build
      | _ => none) (ofMembers [(field, j)]) (build b) := by
  refine .members (List.forall_mem_singleton.2 h.written) rfl fun room => ?_
  have hfields : (ofMembers [(field, j.cut room)]).namedFields? [(field, .required)]
      = some [some (j.cut room)] := fields?_ofMembers rfl (by simp)
  simp only [List.map_cons, List.map_nil, hfields, h.read_cut, List.forall_mem_singleton]
  split <;> rfl

theorem readsBack_spec (s : Stage) : ReadsBack (specOfJson? r s.kind) s.specToJson s := by
  cases s with
  | having predicate => exact readsBack_single (predicate.readsBack r) "expression" having
  | computation fields =>
    exact readsBack_single (.list fun f _ => f.readsBack r) "fields" computation
  | orderBy sortKeys => exact readsBack_single (.list fun k _ => k.readsBack r) "fields" orderBy
  | culling fields =>
    exact readsBack_single
      (.list fun name _ => .leaf (written_ofString 0 name) (asString?_ofString name))
      "fields" culling

theorem readsBack (s : Stage) : ReadsBack (ofJson? r) s.toJson s := by
  refine .tagged rfl ?_
  rw [funext (ofJson?_ofTagged r s.kind)]
  exact readsBack_spec r s

end Stage

/-! ## Expansions -/

namespace Expansion

variable (r : Json.Reading)

theorem ofJson?_tooDeep : ofJson? r tooDeep = none := by
  rw [ofJson?]
  split <;> simp_all [tagged?, asMembers?, asObject?]

theorem ofJson?_ofTagged_tooDeep (name : String) :
    ofJson? r (ofTagged "type" name "spec" tooDeep) = none := by
  have hfields (fields : List (String × Presence)) : tooDeep.namedFields? fields = none := rfl
  have htag (names : List String) :
      (ofTagged "type" name "spec" tooDeep).tagged? r names "type" "spec" =
        some (name, r, tooDeep) := tagged?_ofTagged r names (by decide) name tooDeep
  rw [ofJson?]
  split <;> simp_all

theorem ofJson?_explode (source keyAlias valueAlias outer : Json) :
    ofJson? r (ofTagged "type" "EXPLODE" "spec" (ofMembers [("field", source),
        ("key_alias", keyAlias), ("value_alias", valueAlias), ("outer", outer)])) = do
      let source ← Expr.ofJson? r source
      let keyAlias ← keyAlias.asString?
      let valueAlias ← readAlias (some valueAlias)
      let outer ← readFlag (some outer)
      return explode source keyAlias valueAlias outer := by
  have hfields : (ofMembers [("field", source), ("key_alias", keyAlias),
      ("value_alias", valueAlias), ("outer", outer)]).namedFields? explodeFields
      = some [some source, some keyAlias, some valueAlias, some outer] :=
    fields?_ofMembers rfl (by simp)
  have htag (spec : Json) (names : List String) :=
    tagged?_ofTagged r names (show "spec" ≠ "type" by decide) "EXPLODE" spec
  rw [ofJson?]
  split <;> simp_all

theorem ofJson?_lateralView (inner outer : Json) :
    ofJson? r (ofTagged "type" "LATERAL_VIEW" "spec"
        (ofMembers [("inner", inner), ("outer", outer)])) = do
      let inner ← ofJson? r inner
      let outer ← readFlag (some outer)
      return lateralView inner outer := by
  have hfields : (ofMembers [("inner", inner), ("outer", outer)]).namedFields?
      [("inner", .required), ("outer", .optional)] = some [some inner, some outer] :=
    fields?_ofMembers rfl (by simp)
  have htag (spec : Json) (names : List String) :=
    tagged?_ofTagged r names (show "spec" ≠ "type" by decide) "LATERAL_VIEW" spec
  rw [ofJson?]
  split <;> simp_all
  split <;> simp_all

theorem readAlias_ofOption (valueAlias : Option String) :
    readAlias (some (.ofOption .ofString valueAlias)) = some valueAlias :=
  asOptional?_ofOption valueAlias

theorem readFlag_boolean (b : Bool) : readFlag (some (.boolean b)) = some b := rfl

/-- An expansion is read back, by induction on what it is nested in. -/
theorem readsBack (e : Expansion) : ReadsBack (ofJson? r) e.toJson e := by
  induction e with
  | explode source keyAlias valueAlias outer =>
    have hsource := source.readsBack r
    have halias := written_ofOptionalText 0 valueAlias
    refine .tagged (ofJson?_tooDeep r)
      (.members ?_ (ofJson?_ofTagged_tooDeep r "EXPLODE") fun room => ?_)
    · simpa [hsource.written, written_ofString] using ⟨⟨0, halias⟩, ⟨0, .boolean outer⟩⟩
    · have hcut := halias.cut_eq (Nat.zero_le room)
      have hdepth := Nat.le_trans halias.depth_le (Nat.zero_le room)
      simp only [List.map_cons, List.map_nil, cut_ofString, hcut, cut_boolean]
      rw [ofJson?_explode, hsource.read_cut, asString?_ofString, readAlias_ofOption,
        readFlag_boolean]
      by_cases h : source.toJson.depth ≤ room <;> simp [h, hdepth, depth_ofString, depth_boolean]
  | lateralView inner outer ih =>
    refine .tagged (ofJson?_tooDeep r)
      (.members ?_ (ofJson?_ofTagged_tooDeep r "LATERAL_VIEW") fun room => ?_)
    · simpa [ih.written] using ⟨0, .boolean outer⟩
    · simp only [List.map_cons, List.map_nil, cut_boolean]
      rw [ofJson?_lateralView, ih.read_cut, readFlag_boolean]
      by_cases h : inner.toJson.depth ≤ room <;> simp [h, depth_boolean]

end Expansion

/-! ## Declarations -/

namespace Stage

/-- Stages as JSON, in their order. -/
def listToJson (stages : List Stage) : Json := .array (stages.map toJson)

theorem readsBack_list (r : Json.Reading) (stages : List Stage) :
    ReadsBack (asList? (ofJson? r)) (listToJson stages) stages :=
  .list fun s _ => s.readsBack r

end Stage

namespace Expansion

/-- Expansions as JSON, in their order. -/
def listToJson (expansions : List Expansion) : Json := .array (expansions.map toJson)

theorem readsBack_list (r : Json.Reading) (expansions : List Expansion) :
    ReadsBack (asList? (ofJson? r)) (listToJson expansions) expansions :=
  .list fun e _ => e.readsBack r

end Expansion

/-- What is declared survives being written and read back.  An expression, a stage or an expansion
is read from its own text as it was, whatever texts are in it, unless it nests too deep; it is
refused then.  So lists of stages and of expansions are restored, and what is built from them is
built alike and does the same to every batch. -/
theorem declarations_restored (r : Json.Reading) :
    (∀ e : Expr, (parseBytes e.toJson.bytes).bind (Expr.ofJson? r)
        = if e.toJson.depth ≤ depthLimit then some e else none) ∧
      (∀ s : Stage, (parseBytes s.toJson.bytes).bind (Stage.ofJson? r)
        = if s.toJson.depth ≤ depthLimit then some s else none) ∧
      (∀ e : Expansion, (parseBytes e.toJson.bytes).bind (Expansion.ofJson? r)
        = if e.toJson.depth ≤ depthLimit then some e else none) ∧
      (∀ stages, (Stage.listToJson stages).depth ≤ depthLimit →
        ∃ restored, (parseBytes (Stage.listToJson stages).bytes).bind (asList? (Stage.ofJson? r))
            = some restored ∧
          ∀ b, (Pipeline.ofStages restored >>= fun p => p.run b)
            = (Pipeline.ofStages stages >>= fun p => p.run b)) ∧
      ∀ expansions, (Expansion.listToJson expansions).depth ≤ depthLimit →
        ∃ restored, (parseBytes (Expansion.listToJson expansions).bytes).bind
            (asList? (Expansion.ofJson? r)) = some restored ∧
          ∀ records, (restored.forM Expansion.validate).map
              (fun _ => Expansion.expand records restored)
            = (expansions.forM Expansion.validate).map
              (fun _ => Expansion.expand records expansions) := by
  refine ⟨fun e => (e.readsBack r).parseBytes_bind, fun s => (s.readsBack r).parseBytes_bind,
    fun e => (e.readsBack r).parseBytes_bind, fun stages h => ?_, fun expansions h => ?_⟩
  · exact ⟨stages, (Stage.readsBack_list r stages).parseBytes_bind_of_depth_le h, fun _ => rfl⟩
  · exact ⟨expansions, (Expansion.readsBack_list r expansions).parseBytes_bind_of_depth_le h,
      fun _ => rfl⟩

/-- Whether a note is a quote, in parentheses. -/
def quotation : Expr :=
  .nested (.binary (.column "note.\"") .equal (.cast (.literal "\\\n\x00ß😀" .string) .string))

/-- One stage of each kind. -/
def awkwardStages : List Stage :=
  [.culling ["", "\t"], .orderBy [⟨.sizeOf "note", .descending⟩, ⟨.column " ", .ascending⟩],
    .having (.unary .isNull quotation), .computation [⟨"\u2028", quotation⟩]]

/-- A view that is not valid, and one that is. -/
def awkwardExpansions : List Expansion :=
  [.lateralView (.lateralView (.explode quotation "\x7f" none true) false) true,
    .lateralView (.explode (.column "tags") "tag" (some "\"") false) true]

theorem declarations_restored_awkward :
    ((Stage.listToJson awkwardStages).depth ≤ depthLimit ∧
        (Expansion.listToJson awkwardExpansions).depth ≤ depthLimit) ∧
      (parseBytes quotation.toJson.bytes).bind (Expr.ofJson? .direct) = some quotation ∧
      (∃ restored, (parseBytes (Stage.listToJson awkwardStages).bytes).bind
          (asList? (Stage.ofJson? .direct)) = some restored ∧
        ∀ b, (Pipeline.ofStages restored >>= fun p => p.run b)
          = (Pipeline.ofStages awkwardStages >>= fun p => p.run b)) ∧
      ∃ restored, (parseBytes (Expansion.listToJson awkwardExpansions).bytes).bind
          (asList? (Expansion.ofJson? .direct)) = some restored ∧
        ∀ records, (restored.forM Expansion.validate).map
            (fun _ => Expansion.expand records restored)
          = (awkwardExpansions.forM Expansion.validate).map
            (fun _ => Expansion.expand records awkwardExpansions) := by
  have hstages : (Stage.listToJson awkwardStages).depth ≤ depthLimit := by decide
  have hexpansions : (Expansion.listToJson awkwardExpansions).depth ≤ depthLimit := by decide
  have hquotation : quotation.toJson.depth ≤ depthLimit := by decide
  obtain ⟨hexpr, -, -, hpipeline, hchain⟩ := declarations_restored .direct
  refine ⟨⟨hstages, hexpansions⟩, ?_, hpipeline awkwardStages hstages,
    hchain awkwardExpansions hexpansions⟩
  rw [hexpr, if_pos hquotation]

end StreamQuery
