import BondingCurve.Checked

/-!
# Curve parameters

A parameter set is a list of named values as it was entered: order and repeated names are kept.
Looked up by name, the last entry wins. A set is legal for a family when it has one entry for each
name of the family, all values are non-negative, the exponent `n` of a power curve is whole and
the `c` of a sigmoid curve is positive.
-/

namespace BondingCurve

structure Param where
  name : String
  value : Decimal
deriving DecidableEq

structure Params where
  toList : List Param
deriving DecidableEq

namespace Params

instance : Inhabited Params := ⟨⟨[]⟩⟩

def ofPairs (pairs : List (String × Decimal)) : Params :=
  ⟨pairs.map fun (name, value) => ⟨name, value⟩⟩

def size (params : Params) : Nat := params.toList.length

/-- Enters a value into a list ordered by name, in place of an earlier one of the same name. -/
def put (p : Param) : List Param → List Param
  | [] => [p]
  | q :: qs =>
    if q.name < p.name then q :: put p qs
    else if q.name = p.name then p :: qs
    else p :: q :: qs

/-- Ordered by name, one entry a name, the last value winning. -/
def byName (params : Params) : Params :=
  ⟨params.toList.foldl (fun entries p => put p entries) []⟩

def valueOf? (params : Params) (name : String) : Option Decimal :=
  (params.toList.reverse.find? (·.name == name)).map (·.value)

/-- The first entry whose name has occurred before. -/
def firstRepeat (seen : List String) : List Param → Option String
  | [] => none
  | p :: ps => if p.name ∈ seen then some p.name else firstRepeat (p.name :: seen) ps

def firstDuplicate? (params : Params) : Option String :=
  firstRepeat [] params.toList

def valueOf (params : Params) (name : String) : Except Error Decimal :=
  match params.valueOf? name with
  | some v => .ok v
  | none => .error (.paramMissing name)

def checkNamed (params : Params) (name : String) : Except Error Unit := do
  (← params.valueOf name).ensureNonNegative s!"FunctionParams:{name}"

/-- The extra condition of a family. -/
def checkRestriction (params : Params) : Family → Except Error Unit
  | .power => do
    refuseIf (¬(← params.valueOf "n").IsInteger) (.argumentMustBeInteger "FunctionParams:n")
  | .sigmoid => do
    refuseIf ((← params.valueOf "c") ≤ 0) (.argumentMustBePositive "FunctionParams:c")
  | .swapper | .augmented => return ()

/-- Checks count, names, signs and the family's extra condition, in this order. -/
def validate (params : Params) (family : Family) : Except Error Unit := do
  let expected := family.paramNames
  refuseIf (params.size ≠ expected.length) (.wrongParamCount expected.length params.size)
  expected.forM params.checkNamed
  params.checkRestriction family

/-- A repeated name is reported before anything else. -/
def validateStrict (params : Params) (family : Family) : Except Error Unit :=
  match params.firstDuplicate? with
  | some name => .error (.duplicateParam name)
  | none => params.validate family

theorem mem_put {p q : Param} {ps : List Param} (h : q ∈ put p ps) : q = p ∨ q ∈ ps := by
  induction ps with
  | nil => simpa [put] using h
  | cons r rs ih =>
    unfold put at h
    split at h
    · rcases List.mem_cons.mp h with rfl | h
      · exact .inr List.mem_cons_self
      · exact (ih h).imp_right (List.mem_cons_of_mem _)
    · split at h
      · rcases List.mem_cons.mp h with rfl | h
        · exact .inl rfl
        · exact .inr (List.mem_cons_of_mem _ h)
      · exact List.mem_cons.mp h

theorem pairwise_put {p : Param} {ps : List Param} (h : ps.Pairwise (·.name < ·.name)) :
    (put p ps).Pairwise (·.name < ·.name) := by
  induction ps with
  | nil => simp [put]
  | cons r rs ih =>
    obtain ⟨hr, hrs⟩ := List.pairwise_cons.mp h
    unfold put
    split
    · rename_i hlt
      refine List.pairwise_cons.mpr ⟨?_, ih hrs⟩
      intro q hq
      rcases mem_put hq with rfl | hq
      · exact hlt
      · exact hr q hq
    · rename_i hnot
      split
      · rename_i heq
        exact List.pairwise_cons.mpr ⟨fun q hq => heq ▸ hr q hq, hrs⟩
      · rename_i hne
        have hpr : p.name < r.name :=
          Std.lt_of_le_of_ne (String.not_lt.mp hnot) (Ne.symm hne)
        refine List.pairwise_cons.mpr ⟨?_, h⟩
        intro q hq
        rcases List.mem_cons.mp hq with rfl | hq
        · exact hpr
        · exact String.lt_trans hpr (hr q hq)

theorem pairwise_byName (params : Params) : params.byName.toList.Pairwise (·.name < ·.name) := by
  unfold byName
  generalize hacc : ([] : List Param) = acc
  have h : acc.Pairwise (·.name < ·.name) := hacc ▸ .nil
  clear hacc
  induction params.toList generalizing acc with
  | nil => exact h
  | cons p ps ih => exact ih _ (pairwise_put h)

end Params

end BondingCurve
