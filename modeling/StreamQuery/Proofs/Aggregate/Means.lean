import Mathlib
import StreamQuery.Proofs.Aggregate.Answers
import StreamQuery.Proofs.Numeric.Means
set_option autoImplicit false

/-!
# Least, greatest and mean

A summary takes records one after another, and the mean of a field that it answers with lies between
the least and the greatest number of the field, as doubles are ordered
(`Summary.mean_between_extremes`).  Sums are those of 64-bit integers, which wrap around: the mean
may be anywhere once the exact sum is no LONG (`Summary.mean_below_min`).
-/

namespace StreamQuery

/-! ## Records one after another -/

namespace Summary

/-- Folds records in one after another, up to the first that fails. -/
def consumeAll (lookup : Lookup) (policy : NullPolicy) :
    List Record → Summary → Transition Summary Unit
  | [], s => .done () s
  | r :: rs, s => (s.consume lookup policy r).andThen fun _ s => consumeAll lookup policy rs s

variable {lookup : Lookup} {accumulators : List Aggregate} {r : Record}

theorem metrics_ofRecords_cons (a : Aggregate) (rest : List Aggregate) (rs : List Record) :
    (ofRecords lookup (a :: rest) rs).metrics
      = ⟨a, a.runningOver lookup rs⟩ :: (ofRecords lookup rest rs).metrics := rfl

theorem contributions_ofRecords (h : ∀ a ∈ accumulators, a.Suits lookup r) (rs : List Record) :
    (ofRecords lookup accumulators rs).metrics.mapM (Metric.contribution lookup .skip r)
      = .ok (accumulators.map fun a => (a.input? lookup r).map .long) := by
  induction accumulators with
  | nil => rfl
  | cons a rest ih =>
    rw [metrics_ofRecords_cons, List.mapM_cons,
      Aggregate.contribution_of_suits (h a List.mem_cons_self),
      ih fun b hb => h b (List.mem_cons_of_mem _ hb)]
    rfl

/-- A number that a record contributes is folded into the running value. -/
theorem absorb_runningOver {a : Aggregate} {n : Int64} (h : a.input? lookup r = some n)
    (rs : List Record) : Metric.absorb ⟨a, a.runningOver lookup rs⟩ (.long n)
      = .ok ⟨a, a.runningOver lookup (rs ++ [r])⟩ := by
  have hlast : a.runningOver lookup [r] = .long n := by
    rw [Aggregate.runningOver, List.filterMap_cons_some h]
    rfl
  rw [Metric.absorb, ← hlast, a.reduce_runningOver lookup rs [r]]
  rfl

/-- A record that contributes nothing leaves the running value. -/
theorem runningOver_append_of_none {a : Aggregate} (h : a.input? lookup r = none)
    (rs : List Record) : a.runningOver lookup (rs ++ [r]) = a.runningOver lookup rs := by
  rw [Aggregate.runningOver, Aggregate.runningOver, List.filterMap_append,
    List.filterMap_cons_none h, List.filterMap_nil, List.append_nil]

theorem absorbAll_ofRecords (lookup : Lookup) (accumulators : List Aggregate) (r : Record)
    (rs : List Record) :
    absorbAll ((ofRecords lookup accumulators rs).metrics.zip
        (accumulators.map fun a => (a.input? lookup r).map .long))
      = .done () (ofRecords lookup accumulators (rs ++ [r])).metrics := by
  induction accumulators with
  | nil => rfl
  | cons a rest ih =>
    rw [metrics_ofRecords_cons, metrics_ofRecords_cons, List.map_cons, List.zip_cons_cons]
    cases hinput : a.input? lookup r with
    | none =>
      rw [Option.map_none, absorbAll, ih, runningOver_append_of_none hinput]
      rfl
    | some n =>
      rw [Option.map_some, absorbAll, absorb_runningOver hinput]
      simp only [ih]
      rfl

/-- A record goes behind the records that there are. -/
theorem consume_ofRecords (h : ∀ a ∈ accumulators, a.Suits lookup r) (rs : List Record) :
    (ofRecords lookup accumulators rs).consume lookup .skip r
      = .done () (ofRecords lookup accumulators (rs ++ [r])) := by
  rw [consume]
  simp only [contributions_ofRecords h, absorbAll_ofRecords]
  rfl

theorem consumeAll_ofRecords {rs' : List Record}
    (h : ∀ r ∈ rs', ∀ a ∈ accumulators, a.Suits lookup r) (rs : List Record) :
    (ofRecords lookup accumulators rs).consumeAll lookup .skip rs'
      = .done () (ofRecords lookup accumulators (rs ++ rs')) := by
  induction rs' generalizing rs with
  | nil =>
    rw [List.append_nil]
    rfl
  | cons r rest ih =>
    rw [consumeAll, consume_ofRecords (h r List.mem_cons_self), Transition.andThen_done,
      ih fun r hr => h r (List.mem_cons_of_mem _ hr), List.append_assoc]
    rfl

/-- A summary that has taken some records one after another is the summary of these records. -/
theorem consumeAll_start {rs : List Record}
    (h : ∀ r ∈ rs, ∀ a ∈ accumulators, a.Suits lookup r) :
    (start accumulators).consumeAll lookup .skip rs
      = .done () (ofRecords lookup accumulators rs) :=
  consumeAll_ofRecords h []

end Summary

theorem Aggregate.suits_accumulators {lookup : Lookup} {requested : List Aggregate} {r : Record}
    (h : ∀ a ∈ requested, a.Suits lookup r) : ∀ a ∈ accumulators requested, a.Suits lookup r := by
  intro a ha field hfield
  obtain ⟨b, hb, hsame⟩ := field_of_mem_accumulators ha
  exact h b hb field (hsame ▸ hfield)

/-! ## Sums -/

section Sums

variable {ns : List Int64} {n lo hi : Int64}

instance lawfulOrderMax_int64 : Std.LawfulOrderMax Int64 where
  max_eq_or a b := by
    rw [← Int64.toInt_inj, ← Int64.toInt_inj, Measure.toInt_max]
    omega
  max_le_iff a b c := by
    simp only [Int64.le_iff_toInt_le, Measure.toInt_max]
    omega

/-- A sum of LONGs is the exact sum, wrapped around. -/
theorem toInt_sum (ns : List Int64) :
    ns.sum.toInt = (ns.map Int64.toInt).sum.bmod (2 ^ 64) := by
  induction ns with
  | nil => rfl
  | cons n ns ih =>
    rw [List.sum_cons, Int64.toInt_add, ih, Int.add_bmod_bmod, List.map_cons, List.sum_cons]

/-- As many times the least number are not above the sum. -/
theorem length_mul_min_le (h : ns.min? = some lo) :
    ns.length * lo.toInt ≤ (ns.map Int64.toInt).sum := by
  have hle := List.card_nsmul_le_sum (ns.map Int64.toInt) lo.toInt fun x hx => by
    obtain ⟨n, hn, rfl⟩ := List.mem_map.1 hx
    exact Int64.le_iff_toInt_le.1 ((List.min?_eq_some_iff.1 h).2 n hn)
  rwa [List.length_map, nsmul_eq_mul] at hle

/-- As many times the greatest number are not below the sum. -/
theorem sum_le_length_mul_max (h : ns.max? = some hi) :
    (ns.map Int64.toInt).sum ≤ ns.length * hi.toInt := by
  have hle := List.sum_le_card_nsmul (ns.map Int64.toInt) hi.toInt fun x hx => by
    obtain ⟨n, hn, rfl⟩ := List.mem_map.1 hx
    exact Int64.le_iff_toInt_le.1 ((List.max?_eq_some_iff.1 h).2 n hn)
  rwa [List.length_map, nsmul_eq_mul] at hle

end Sums

/-! ## The mean of a field -/

/-- The LONGs that a field holds in some records. -/
def longsOf (lookup : Lookup) (field : String) (rs : List Record) : List Int64 :=
  rs.filterMap (fieldLong? lookup (some field))

/-- The exact sum of the LONGs that a field holds in some records. -/
def exactSum (lookup : Lookup) (field : String) (rs : List Record) : Int :=
  ((longsOf lookup field rs).map Int64.toInt).sum

/-- How often a number is rounded before the exact sum is divided by the count. -/
def roundingsOf (lookup : Lookup) (field : String) (rs : List Record) : Nat :=
  Numeric.roundings (exactSum lookup field rs).natAbs
    + Numeric.roundings (longsOf lookup field rs).length

section Answers

variable (lookup : Lookup) (field : String) (name : Option String) (rs : List Record)

theorem answer_min : Aggregate.answer lookup ⟨.min, some field, name⟩ rs
    = (longsOf lookup field rs).min?.elim .null .long := rfl

theorem answer_max : Aggregate.answer lookup ⟨.max, some field, name⟩ rs
    = (longsOf lookup field rs).max?.elim .null .long := rfl

/-- LONGs are averaged in double precision. -/
theorem answer_avg (hpos : 0 < (longsOf lookup field rs).length)
    (hlt : (longsOf lookup field rs).length < 2 ^ 63) :
    Aggregate.answer lookup ⟨.avg, some field, name⟩ rs
      = .double (Numeric.doubleOfInt ((exactSum lookup field rs).bmod (2 ^ 64))
          / Numeric.doubleOfInt (longsOf lookup field rs).length) := by
  have hanswer : Aggregate.answer lookup ⟨.avg, some field, name⟩ rs
      = if longsOf lookup field rs = [] then .null
        else Value.average (.long (longsOf lookup field rs).sum)
          (.long (Int64.ofNat (longsOf lookup field rs).length)) := rfl
  have habove :
      (Numeric.doubleOfInt (longsOf lookup field rs).length).datum.isPositive = true :=
    Numeric.isPositive_doubleOfInt hpos (by omega)
  rw [hanswer, if_neg (List.ne_nil_of_length_pos hpos), exactSum, ← toInt_sum]
  rw [← Int64.toInt_ofNat_of_lt hlt] at habove ⊢
  exact if_pos habove

end Answers

/-- A double is not above another one by more than some places of their order. -/
def NotAbove (places : Nat) (x y : Numeric.Double) : Prop :=
  x.key ≤ y.key + places

theorem notAbove_zero_iff {x y : Numeric.Double} :
    NotAbove 0 x y ↔ Ord.compare x.key y.key ≠ .gt := by
  rw [NotAbove, Nat.cast_zero, add_zero, ne_eq, Int.compare_eq_gt, not_lt]

/-- Without any places between them, a LONG is not above a DOUBLE as the two compare. -/
theorem notAbove_zero_iff_compare_long (n : Int64) (x : Numeric.Double) :
    NotAbove 0 (Numeric.doubleOfInt n.toInt) x ↔ (Value.long n).compare (.double x) ≠ .ok .gt := by
  rw [notAbove_zero_iff, ne_eq, ne_eq, not_iff_not]
  exact (Except.ok.injEq _ _).symm.to_iff

/-- Without any places between them, a DOUBLE is not above a LONG as the two compare. -/
theorem notAbove_zero_iff_compare_double (n : Int64) (x : Numeric.Double) :
    NotAbove 0 x (Numeric.doubleOfInt n.toInt) ↔ (Value.double x).compare (.long n) ≠ .ok .gt := by
  rw [notAbove_zero_iff, ne_eq, ne_eq, not_iff_not]
  exact (Except.ok.injEq _ _).symm.to_iff

namespace Summary

variable {requested : List Aggregate} {field : String} {minName maxName meanName : Option String}
  {rs : List Record}

/-- A summary that has taken records whose field is absent, NULL or a LONG answers with the quotient
of the sum, wrapped around, and the count of the LONGs as their mean.  If the exact sum is a LONG,
the mean lies between the least and the greatest number, up to one place for each of the sum and the
count that is rounded before they are divided. -/
theorem mean_between_extremes (lookup : Lookup)
    (hmin : ⟨.min, some field, minName⟩ ∈ requested)
    (hmax : ⟨.max, some field, maxName⟩ ∈ requested)
    (hmean : ⟨.avg, some field, meanName⟩ ∈ requested)
    (hsuits : ∀ r ∈ rs, ∀ a ∈ requested, a.Suits lookup r)
    (hlong : ∃ r ∈ rs, ∃ n, lookup field r = .ok (.long n))
    (hcount : (longsOf lookup field rs).length < 2 ^ 63) :
    ∃ s lo hi mean,
      (start (Aggregate.accumulators requested)).consumeAll lookup .skip rs = .done () s ∧
      s.result ⟨.min, some field, minName⟩ = .long lo ∧
      s.result ⟨.max, some field, maxName⟩ = .long hi ∧
      s.result ⟨.avg, some field, meanName⟩ = .double mean ∧
      mean = Numeric.doubleOfInt ((exactSum lookup field rs).bmod (2 ^ 64))
        / Numeric.doubleOfInt (longsOf lookup field rs).length ∧
      (-2 ^ 63 ≤ exactSum lookup field rs → exactSum lookup field rs < 2 ^ 63 →
        NotAbove (roundingsOf lookup field rs) (Numeric.doubleOfInt lo.toInt) mean ∧
          NotAbove (roundingsOf lookup field rs) mean (Numeric.doubleOfInt hi.toInt)) := by
  have hsuits' : ∀ r ∈ rs, ∀ a ∈ Aggregate.accumulators requested, a.Suits lookup r :=
    fun r hr => Aggregate.suits_accumulators (hsuits r hr)
  have hne : longsOf lookup field rs ≠ [] := by
    obtain ⟨r, hr, n, hn⟩ := hlong
    have hmem : n ∈ longsOf lookup field rs :=
      List.mem_filterMap.2 ⟨r, hr, by simp only [fieldLong?, hn]⟩
    exact List.ne_nil_of_mem hmem
  have hpos : 0 < (longsOf lookup field rs).length := List.length_pos_iff.2 hne
  obtain ⟨lo, hlo⟩ := Option.isSome_iff_exists.1 (List.isSome_min?_of_ne_nil hne)
  obtain ⟨hi, hhi⟩ := Option.isSome_iff_exists.1 (List.isSome_max?_of_ne_nil hne)
  refine ⟨_, lo, hi, _, consumeAll_start hsuits', ?_, ?_, ?_, rfl, ?_⟩
  · rw [result_ofRecords lookup hmin, answer_min, hlo]
    rfl
  · rw [result_ofRecords lookup hmax, answer_max, hhi]
    rfl
  · rw [result_ofRecords lookup hmean, answer_avg _ _ _ _ hpos hcount]
  · intro hlow hhigh
    have hexact : (exactSum lookup field rs).bmod (2 ^ 64) = exactSum lookup field rs :=
      Int.bmod_eq_of_le (by omega) (by omega)
    rw [hexact, NotAbove, NotAbove]
    have hsum : (exactSum lookup field rs).natAbs < 2 ^ 64 := by omega
    exact ⟨Numeric.key_le_mean hsum (by omega) hpos (length_mul_min_le hlo),
      Numeric.mean_le_key hsum (by omega) hpos (sum_le_length_mul_max hhi)⟩

/-- A request for the least and the greatest number of a field and their mean. -/
def spread : List Aggregate :=
  [⟨.min, some "v", some "lo"⟩, ⟨.max, some "v", some "hi"⟩, ⟨.avg, some "v", some "mean"⟩]

/-- A record of one LONG. -/
def reading (n : Int64) : Record := .ofList [("v", .long n)]

theorem lookup_reading (n : Int64) : Record.lookup "v" (reading n) = .ok (.long n) := by
  have hget : (reading n).get? "v" = some (.long n) := Record.get?_set_self _ _ _
  rw [Record.lookup, hget]

theorem longsOf_readings (ns : List Int64) :
    longsOf Record.lookup "v" (ns.map reading) = ns := by
  have hread (n : Int64) : fieldLong? Record.lookup (some "v") (reading n) = some n := by
    simp only [fieldLong?, lookup_reading]
  rw [longsOf, List.filterMap_map]
  exact (List.filterMap_congr fun n _ => hread n).trans List.filterMap_some

theorem suits_readings (ns : List Int64) :
    ∀ r ∈ ns.map reading, ∀ a ∈ spread, a.Suits Record.lookup r := by
  intro r hr a ha field hfield
  obtain ⟨n, -, rfl⟩ := List.mem_map.1 hr
  have hname : field = "v" := by
    simp only [spread, List.mem_cons, List.not_mem_nil, or_false] at ha
    rcases ha with rfl | rfl | rfl <;> cases hfield <;> rfl
  exact hname ▸ .inr (.inr ⟨n, lookup_reading n⟩)

/-- The mean of two readings of the largest LONG is far below both, as their sum wraps around. -/
theorem mean_below_min : ∃ s mean,
    (start (Aggregate.accumulators spread)).consumeAll Record.lookup .skip
        ([Int64.maxValue, Int64.maxValue].map reading) = .done () s ∧
      s.result ⟨.min, some "v", some "lo"⟩ = .long Int64.maxValue ∧
      s.result ⟨.avg, some "v", some "mean"⟩ = .double mean ∧
      ¬ NotAbove 1 (Numeric.doubleOfInt Int64.maxValue.toInt) mean := by
  have hlongs := longsOf_readings [Int64.maxValue, Int64.maxValue]
  refine ⟨_, Numeric.doubleOfInt (-2) / Numeric.doubleOfInt 2, consumeAll_start fun r hr =>
    Aggregate.suits_accumulators (suits_readings _ r hr), ?_, ?_, ?_⟩
  · rw [result_ofRecords _ (by simp [spread]), answer_min, hlongs]
    rfl
  · rw [result_ofRecords _ (by simp [spread]), answer_avg _ _ _ _ (by rw [hlongs]; decide)
      (by rw [hlongs]; decide), exactSum, hlongs]
    rfl
  · unfold NotAbove
    decide +kernel

/-- The mean of one, two and four is not below the least and not above the greatest of them. -/
theorem mean_between_extremes_few : ∃ s lo hi mean,
    (start (Aggregate.accumulators spread)).consumeAll Record.lookup .skip ([1, 2, 4].map reading)
        = .done () s ∧
      s.result ⟨.min, some "v", some "lo"⟩ = .long lo ∧
      s.result ⟨.max, some "v", some "hi"⟩ = .long hi ∧
      s.result ⟨.avg, some "v", some "mean"⟩ = .double mean ∧
      mean = Numeric.doubleOfInt 7 / Numeric.doubleOfInt 3 ∧
      (Value.long lo).compare (.double mean) ≠ .ok .gt ∧
      (Value.double mean).compare (.long hi) ≠ .ok .gt := by
  have hlongs := longsOf_readings [1, 2, 4]
  have hsum : exactSum Record.lookup "v" ([1, 2, 4].map reading) = 7 := by
    rw [exactSum, hlongs]
    decide
  have hroundings : roundingsOf Record.lookup "v" ([1, 2, 4].map reading) = 0 := by
    rw [roundingsOf, hsum, hlongs]
    decide
  have hmin : ⟨.min, some "v", some "lo"⟩ ∈ spread := by simp [spread]
  have hmax : ⟨.max, some "v", some "hi"⟩ ∈ spread := by simp [spread]
  have havg : ⟨.avg, some "v", some "mean"⟩ ∈ spread := by simp [spread]
  obtain ⟨s, lo, hi, mean, hconsume, hlo, hhi, hresult, hmean, hbounds⟩ :=
    mean_between_extremes Record.lookup hmin hmax havg (suits_readings [1, 2, 4])
      ⟨_, List.mem_cons_self, 1, lookup_reading 1⟩ (by rw [hlongs]; decide)
  rw [hsum, hroundings, notAbove_zero_iff_compare_long, notAbove_zero_iff_compare_double] at hbounds
  rw [hsum, hlongs] at hmean
  exact ⟨s, lo, hi, mean, hconsume, hlo, hhi, hresult, hmean, hbounds (by decide) (by decide)⟩

end Summary

end StreamQuery
