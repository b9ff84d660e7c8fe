import SymCalc.Proofs.Expr.Failures
import SymCalc.Proofs.Expr.Remembering
import SymCalc.Samples

/-!
# Samples have no influence on each other

**Theorem (`sample_pointwise`).** Let the division epsilon be above zero and the function have no
logarithm with a base below zero. Then any interval that is not empty is sampled at any whole number
of points from two on. The points are evenly spaced and end with the end of the interval. Each has
the value of the function there or, if there is none, not-a-number, whatever happens at the other
points. An empty interval and then a bad count are refused before the function is evaluated
anywhere.

There is one exception: where the message about a missing value cannot be written, what is raised is
no `EvaluationError`, and sampling fails with it (`MessageTooLong`, `sample_number_too_long`). It
does not arise if the function itself can be written (`not_messageTooLong`).

What happens at one point is a function of that point (`samplePoint_eq`): evaluation fails with
nothing but an `EvaluationError`, which is caught (`evaluate_eq_error`). So the loop over the points
maps that function over the grid (`mapM_samplePoint`).

To tell at which points a function is evaluated, `sampleRecording` keeps a record of them. It gives
the same points as `sample` (`sampleRecording_fst`).
-/

namespace SymCalc

open SymCalc.Expr

variable {ε first last x y : Float} {f : Formula} {count : Literal} {n : ℕ} {seen : List Float}

/-! ## Sampling with a record -/

/-- A computation that records the points at which a function is evaluated. -/
abbrev Recording := ExceptT Error (StateM (List Float))

/-- A point with the value of the function there, where the function is evaluated once. -/
def samplePointRecording (ε : Float) (f : Formula) (x : Float) : Recording (Float × Float) :=
  fun seen => (samplePoint ε f x, seen ++ [x])

/-- Samples a function and records where it is evaluated. -/
def sampleRecording (ε : Float) (f : Formula) (first last : Float) (count : Literal) :
    Recording (List (Float × Float)) :=
  if last < first then throw (.value (.emptyInterval first last))
  else
    match pointCount? count with
    | none => throw (.value (.ofCount count))
    | some n => (grid first last n).mapM (samplePointRecording ε f)

theorem mapM_samplePointRecording_fst (ε : Float) (f : Formula) (xs seen : List Float) :
    (xs.mapM (samplePointRecording ε f) seen).1 = xs.mapM (samplePoint ε f) := by
  induction xs generalizing seen with
  | nil => rfl
  | cons x xs ih =>
    rw [List.mapM_cons, List.mapM_cons, bind_apply]
    have hpoint : samplePointRecording ε f x seen = (samplePoint ε f x, seen ++ [x]) := rfl
    rw [hpoint]
    cases samplePoint ε f x with
    | error e => rfl
    | ok p =>
      dsimp only
      rw [bind_apply]
      have hrest := ih (seen ++ [x])
      rcases hrun : xs.mapM (samplePointRecording ε f) (seen ++ [x]) with ⟨_ | ps, seen'⟩ <;>
        rw [hrun] at hrest <;> rw [← hrest] <;> rfl

/-- **The record makes no difference.** -/
theorem sampleRecording_fst (ε : Float) (f : Formula) (first last : Float) (count : Literal)
    (seen : List Float) :
    (sampleRecording ε f first last count seen).1 = sample ε f first last count := by
  rw [sampleRecording, sample]
  split_ifs
  · rfl
  · cases pointCount? count with
    | none => rfl
    | some n => exact mapM_samplePointRecording_fst ε f _ seen

/-! ## One point -/

/-- No logarithm in the function has a base below zero. -/
def Formula.HasNaturalBases : Formula → Prop
  | .expr e => e.Everywhere HasNaturalBase
  | .polynomial _ => True

/-- All numbers in the text of the function can be written. -/
def Formula.IsWritable : Formula → Prop
  | .expr e => e.isWritable
  | .polynomial _ => True

/-- The function has no value at the point, and the message about that cannot be written. -/
def MessageTooLong (ε : Float) (f : Formula) (x : Float) : Prop :=
  f.evaluate ε x = .error (.value .numberTooLong)

/-- A function that has no value at a point fails with an error of evaluation, if it can be
written. -/
theorem evaluate_eq_error (hε : 0.0 < ε) (hf : f.HasNaturalBases) {e : Error}
    (h : f.evaluate ε x = .error e) : (∃ err, e = .evaluation err) ∨ MessageTooLong ε f x := by
  cases f with
  | polynomial p => cases h
  | expr t =>
    rcases settled hε x hf with ⟨-, v, hv, -⟩ | ⟨err, -, hv, -⟩
    · cases hv.symm.trans h
    · by_cases hwritable : err.isWritable
      · rw [EvaluationError.raised_of_isWritable hwritable] at hv
        cases hv.symm.trans h
        exact Or.inl ⟨err, rfl⟩
      · rw [EvaluationError.raised_of_not_isWritable hwritable] at hv
        exact Or.inr hv

/-- **Where a function can be written, so can every message** about a missing value. -/
theorem not_messageTooLong (hε : 0.0 < ε) (hf : f.HasNaturalBases) (hwritable : f.IsWritable)
    (x : Float) : ¬MessageTooLong ε f x := by
  intro h
  cases f with
  | polynomial p => cases h
  | expr t =>
    rcases (settled hε x hf).of_isWritable hwritable with ⟨-, v, hv⟩ | ⟨err, -, hv⟩
    · cases hv.symm.trans h
    · cases hv.symm.trans h

/-- The value at a point, or not-a-number. -/
def valueOrNaN (ε : Float) (f : Formula) (x : Float) : Float :=
  match f.evaluate ε x with
  | .ok y => y
  | .error _ => Double.notANumber

/-- **What happens at a point** depends on that point only. -/
theorem samplePoint_eq (hε : 0.0 < ε) (hf : f.HasNaturalBases) (hx : ¬MessageTooLong ε f x) :
    samplePoint ε f x = .ok (x, valueOrNaN ε f x) := by
  rw [samplePoint, valueOrNaN]
  cases h : f.evaluate ε x with
  | ok y => rfl
  | error e =>
    rcases evaluate_eq_error hε hf h with ⟨err, rfl⟩ | hlong
    · rfl
    · exact absurd hlong hx

theorem samplePoint_of_messageTooLong (hx : MessageTooLong ε f x) :
    samplePoint ε f x = .error (.value .numberTooLong) := by
  rw [samplePoint, hx]

/-! ## All points -/

/-- The points of a grid: evenly spaced, and the last of them is the end of the interval. Where the
step from one to the next is too small for a double, the place within the interval is scaled. -/
structure EvenlySpaced (first last : Float) (n : ℕ) (xs : List Float) : Prop where
  length_eq : xs.length = n
  last_eq : xs.getLast? = some last
  step (i : ℕ) (hi : i + 1 < n) (hstep : ¬((last - first) / Float.ofNat (n - 1) == 0.0) = true) :
    xs[i]? = some (Float.ofNat i * ((last - first) / Float.ofNat (n - 1)) + first)
  scale (i : ℕ) (hi : i + 1 < n) (hstep : ((last - first) / Float.ofNat (n - 1) == 0.0) = true) :
    xs[i]? = some (Float.ofNat i / Float.ofNat (n - 1) * (last - first) + first)

theorem grid_getElem? (first last : Float) {i : ℕ} (hi : i < n) :
    (grid first last n)[i]? = some (gridPoint first last (n - 1) i) := by
  rw [grid, List.getElem?_map, List.getElem?_range hi]
  rfl

theorem evenlySpaced_grid (first last : Float) (hn : 0 < n) :
    EvenlySpaced first last n (grid first last n) where
  length_eq := length_grid first last n
  last_eq := by
    rw [List.getLast?_eq_getElem?, length_grid, grid_getElem? first last (by omega),
      gridPoint_last]
  step i hi hstep := by
    rw [grid_getElem? first last (by omega), gridPoint, if_neg (by omega), if_neg hstep]
  scale i hi hstep := by
    rw [grid_getElem? first last (by omega), gridPoint, if_neg (by omega), if_pos hstep]

/-- **Sampling maps one function over the points**, and evaluates at each of them once. -/
theorem mapM_samplePoint (hε : 0.0 < ε) (hf : f.HasNaturalBases) {xs : List Float}
    (hxs : ∀ x ∈ xs, ¬MessageTooLong ε f x) (seen : List Float) :
    xs.mapM (samplePointRecording ε f) seen =
      (.ok (xs.map fun x => (x, valueOrNaN ε f x)), seen ++ xs) := by
  induction xs generalizing seen with
  | nil =>
    rw [List.append_nil]
    rfl
  | cons x xs ih =>
    obtain ⟨hx, hxs⟩ := List.forall_mem_cons.mp hxs
    have hpoint : samplePointRecording ε f x seen = (.ok (x, valueOrNaN ε f x), seen ++ [x]) := by
      rw [samplePointRecording, samplePoint_eq hε hf hx]
    rw [List.mapM_cons, bind_apply, hpoint]
    dsimp only
    rw [bind_apply, ih hxs, List.append_assoc]
    rfl

/-- The first point whose message cannot be written ends the sampling. -/
theorem mapM_of_messageTooLong (hε : 0.0 < ε) (hf : f.HasNaturalBases) {xs : List Float}
    (h : ∃ x ∈ xs, MessageTooLong ε f x) :
    xs.mapM (samplePoint ε f) = .error (.value .numberTooLong) := by
  obtain ⟨y, hy, hlong⟩ := h
  induction xs with
  | nil => cases hy
  | cons x xs ih =>
    rw [List.mapM_cons]
    by_cases hx : MessageTooLong ε f x
    · rw [samplePoint_of_messageTooLong hx]
      rfl
    · rw [samplePoint_eq hε hf hx]
      rcases List.mem_cons.mp hy with rfl | hy
      · exact absurd hlong hx
      · rw [ih hy]
        rfl

theorem pointCount?_of_le {k : ℤ} (hk : 2 ≤ k) : pointCount? (.int k) = some k.toNat :=
  if_pos hk

theorem pointCount?_eq_none (h : ∀ k, count = .int k → k < 2) : pointCount? count = none := by
  cases count with
  | int k => exact if_neg (not_le.mpr (h k rfl))
  | _ => rfl

/-- The value that belongs to the point: that of the function, or not-a-number if it has none. -/
structure IsSampledValue (ε : Float) (f : Formula) (x y : Float) : Prop where
  of_ok (v : Float) (h : f.evaluate ε x = .ok v) : y = v
  of_error (e : Error) (h : f.evaluate ε x = .error e) : y = Double.notANumber

theorem isSampledValue (ε : Float) (f : Formula) (x : Float) :
    IsSampledValue ε f x (valueOrNaN ε f x) where
  of_ok v h := by rw [valueOrNaN, h]
  of_error e h := by rw [valueOrNaN, h]

/-- The points and values that a sample consists of. -/
structure IsSample (ε : Float) (f : Formula) (first last : Float) (n : ℕ)
    (ps : List (Float × Float)) : Prop where
  length_eq : ps.length = n
  evenlySpaced : EvenlySpaced first last n (ps.map Prod.fst)
  value (i : ℕ) (hi : i < n) : ∃ x y, ps[i]? = some (x, y) ∧ IsSampledValue ε f x y

theorem isSample_grid (ε : Float) (f : Formula) (first last : Float) (hn : 0 < n) :
    IsSample ε f first last n ((grid first last n).map fun x => (x, valueOrNaN ε f x)) where
  length_eq := by rw [List.length_map, length_grid]
  evenlySpaced := by
    rw [List.map_map]
    exact (List.map_id (grid first last n)).symm ▸ evenlySpaced_grid first last hn
  value i hi := by
    refine ⟨_, _, ?_, isSampledValue ε f (gridPoint first last (n - 1) i)⟩
    rw [List.getElem?_map, grid_getElem? first last hi]
    rfl

/-- **An interval that is not empty is sampled**, at the points that are recorded. -/
theorem exists_sampleRecording (hε : 0.0 < ε) (hf : f.HasNaturalBases)
    (hinterval : ¬last < first) {k : ℤ} (hk : 2 ≤ k)
    (hxs : ∀ x ∈ grid first last k.toNat, ¬MessageTooLong ε f x) :
    ∃ ps, IsSample ε f first last k.toNat ps ∧ ∀ seen,
      sampleRecording ε f first last (.int k) seen = (.ok ps, seen ++ ps.map Prod.fst) := by
  have hpos : 0 < k.toNat := by omega
  refine ⟨_, isSample_grid ε f first last hpos, fun seen => ?_⟩
  rw [sampleRecording, if_neg hinterval, pointCount?_of_le hk, List.map_map]
  exact (mapM_samplePoint hε hf hxs seen).trans
    (congrArg (fun xs => (_, seen ++ xs)) (List.map_id _).symm)

theorem sample_of_messageTooLong (hε : 0.0 < ε) (hf : f.HasNaturalBases)
    (hinterval : ¬last < first) {k : ℤ} (hk : 2 ≤ k)
    (hxs : ∃ x ∈ grid first last k.toNat, MessageTooLong ε f x) :
    sample ε f first last (.int k) = .error (.value .numberTooLong) := by
  rw [sample, if_neg hinterval, pointCount?_of_le hk]
  exact mapM_of_messageTooLong hε hf hxs

/-- An empty interval is refused, and nothing is recorded. -/
theorem sampleRecording_of_lt (hinterval : last < first) (ε : Float) (f : Formula)
    (count : Literal) (seen : List Float) :
    sampleRecording ε f first last count seen =
      (.error (.value (.emptyInterval first last)), seen) := by
  rw [sampleRecording, if_pos hinterval]
  rfl

/-- A bad count is refused, and nothing is recorded. -/
theorem sampleRecording_of_badCount (hinterval : ¬last < first)
    (hcount : ∀ k, count = .int k → k < 2) (ε : Float) (f : Formula) (seen : List Float) :
    sampleRecording ε f first last count seen = (.error (.value (.ofCount count)), seen) := by
  rw [sampleRecording, if_neg hinterval, pointCount?_eq_none hcount]
  rfl

/-- **Samples have no influence on each other.** An interval that is not empty is sampled at any
count of points from two on:

* there are that many points, evenly spaced, and the function is evaluated at each of them once,
* each has its own value, or not-a-number if the function has none there.

Only a point where the message about the missing value cannot be written ends the sampling with an
error. There is none if the function can be written. An empty interval, and then a count that is not
a whole number from two on, is refused before any function is evaluated. -/
theorem sample_pointwise (hε : 0.0 < ε) (hf : f.HasNaturalBases) (first last : Float) :
    (∀ (ε' : Float) (g : Formula) (count : Literal) (seen : List Float),
      (sampleRecording ε' g first last count seen).1 = sample ε' g first last count) ∧
    (¬last < first → ∀ k : ℤ, 2 ≤ k →
      ((∀ x ∈ grid first last k.toNat, ¬MessageTooLong ε f x) →
        ∃ ps, sample ε f first last (.int k) = .ok ps ∧ IsSample ε f first last k.toNat ps ∧
          ∀ seen,
            sampleRecording ε f first last (.int k) seen = (.ok ps, seen ++ ps.map Prod.fst)) ∧
      ((∃ x ∈ grid first last k.toNat, MessageTooLong ε f x) →
        sample ε f first last (.int k) = .error (.value .numberTooLong))) ∧
    (f.IsWritable → ∀ x, ¬MessageTooLong ε f x) ∧
    (last < first → ∀ (ε' : Float) (g : Formula) (count : Literal) (seen : List Float),
      sampleRecording ε' g first last count seen =
        (.error (.value (.emptyInterval first last)), seen)) ∧
    (¬last < first → ∀ count : Literal, (∀ k, count = .int k → k < 2) →
      ∀ (ε' : Float) (g : Formula) (seen : List Float),
        sampleRecording ε' g first last count seen =
          (.error (.value (.ofCount count)), seen)) := by
  refine ⟨fun ε' g => sampleRecording_fst ε' g first last, ?_, not_messageTooLong hε hf,
    sampleRecording_of_lt, ?_⟩
  · intro hinterval k hk
    refine ⟨fun hxs => ?_, sample_of_messageTooLong hε hf hinterval hk⟩
    obtain ⟨ps, hps, hrecording⟩ := exists_sampleRecording hε hf hinterval hk hxs
    refine ⟨ps, ?_, hps, hrecording⟩
    rw [← sampleRecording_fst ε f first last (.int k) [], hrecording]
  · intro hinterval count hcount
    exact sampleRecording_of_badCount hinterval hcount

/-- The reciprocal has no value in the middle of the interval from `-1` to `1`. -/
theorem sample_pointwise_reciprocal :
    let f := Formula.expr (binary .div (number 1.0) var)
    let ps := [(-1.0, -1.0), (0.0, Double.notANumber), (1.0, 1.0)]
    f.evaluate 1e-10 0.0 =
        .error (.evaluation (.divisionByZero 0.0 (binary .div (number 1.0) var))) ∧
      sample 1e-10 f (-1.0) 1.0 (.int 3) = .ok ps ∧ IsSample 1e-10 f (-1.0) 1.0 3 ps := by
  intro f ps
  have hnatural : f.HasNaturalBases := by simp [f, Formula.HasNaturalBases, HasNaturalBase, number]
  have hinterval : ¬(1.0 : Float) < -1.0 := by decide
  have hsample : (sample 1e-10 f (-1.0) 1.0 (.int 3)).toOption = some ps := by decide +kernel
  obtain ⟨-, hpoints, hwritten, -⟩ :=
    sample_pointwise (ε := 1e-10) (by decide) hnatural (-1.0) 1.0
  obtain ⟨hsampled, -⟩ := hpoints hinterval 3 (by decide)
  obtain ⟨ps', hps', hvalues, -⟩ := hsampled fun x _ => hwritten rfl x
  cases (eq_ok_of_toOption hsample).symm.trans hps'
  exact ⟨rfl, hps', hvalues⟩

/-- A function without values, whose messages would show a base that is too long. -/
theorem sample_number_too_long :
    let f := Formula.expr longQuotient
    f.HasNaturalBases ∧ sample 1e-10 f 0.0 1.0 (.int 2) = .error (.value .numberTooLong) := by
  intro f
  have hnatural : f.HasNaturalBases := natural_longQuotient
  have hlong : ∀ x, MessageTooLong 1e-10 f x := evaluate_longQuotient (by decide)
  refine ⟨hnatural, sample_of_messageTooLong (by decide) hnatural (by decide) (by decide) ?_⟩
  exact ⟨_, List.mem_of_getElem? (grid_getElem? 0.0 1.0 (show 0 < 2 by decide)), hlong _⟩

end SymCalc
