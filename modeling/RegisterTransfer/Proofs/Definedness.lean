import Mathlib.Data.List.Forall2
import RegisterTransfer.Machine.External
import RegisterTransfer.Simulation.Match
set_option autoImplicit false

/-!
# The order of definedness

A computation may only gain definedness when its inputs do.  This holds of every operation,
address and condition, because an undefined operand makes the result undefined or leaves none; of
external functions it is asked, as `Externals.Monotone`.
-/

namespace RegisterTransfer

/-! ## Values -/

namespace Val

/-- A value is below another only if it reads as `undefined` or is that value. -/
theorem lessDefined_iff {v w : Val} : v.lessDefined w ↔ v.read = .undefined ∨ v = w := by
  cases v <;> simp [lessDefined, read]

@[simp] theorem undefined_lessDefined (v : Val) : undefined.lessDefined v := rfl

@[simp] theorem lessDefined_refl (v : Val) : v.lessDefined v :=
  lessDefined_iff.mpr (.inr rfl)

@[simp] theorem read_lessDefined (v w : Val) : v.read.lessDefined w = v.lessDefined w := by
  cases v <;> rfl

/-- What is read keeps the order. -/
theorem read_lessDefined_read {v w : Val} (h : v.lessDefined w) :
    v.read.lessDefined w.read := by
  rcases lessDefined_iff.mp h with hv | rfl
  · rw [hv]; rfl
  · exact lessDefined_refl _

/-- A defined value has no other value above it. -/
theorem eq_of_lessDefined {v w : Val} (h : v.lessDefined w) (hv : v.read ≠ .undefined) : w = v :=
  ((lessDefined_iff.mp h).resolve_left hv).symm

theorem listLessDefined_iff {vs ws : List Val} :
    listLessDefined vs ws ↔ List.Forall₂ (fun v w => v.lessDefined w) vs ws := by
  induction vs generalizing ws with
  | nil => cases ws <;> simp [listLessDefined]
  | cons v vs ih => cases ws <;> simp [listLessDefined, ih]

end Val

/-! ## Register files -/

namespace Registers

@[simp] theorem get_empty (r : Reg) : (∅ : Registers).get r = .undefined := rfl

@[simp] theorem get_set_self (rs : Registers) (r : Reg) (v : Val) :
    (rs.set r v).get r = v.read := by
  simp [get, set]

theorem get_set_ne (rs : Registers) {r r' : Reg} (v : Val) (h : r' ≠ r) :
    (rs.set r v).get r' = rs.get r' := by
  simp [get, set, FinMap.get?_insert_ne _ _ h]

/-- The order of register files is that of the values of all registers, also of those that were
given none. -/
theorem lessDefined_iff {rs ws : Registers} :
    rs.lessDefined ws ↔ ∀ r, (rs.get r).lessDefined (ws.get r) := by
  simp only [lessDefined, List.all_eq_true]
  constructor
  · intro h r
    cases hr : rs.values.get? r with
    | none => simp [get, hr]
    | some v => simpa [get, hr] using h (r, v) (FinMap.get?_eq_some_iff_mem.mp hr)
  · rintro h ⟨r, v⟩ hmem
    simpa [get, FinMap.get?_eq_some_iff_mem.mpr hmem] using h r

theorem lessDefined_set {rs ws : Registers} {v w : Val} (r : Reg) (hrs : rs.lessDefined ws)
    (hv : v.lessDefined w) : (rs.set r v).lessDefined (ws.set r w) := by
  rw [lessDefined_iff] at hrs ⊢
  intro r'
  by_cases hr : r' = r
  · subst hr
    simpa using Val.read_lessDefined_read hv
  · simpa [get_set_ne _ _ hr] using hrs r'

theorem lessDefined_list {rs ws : Registers} (h : rs.lessDefined ws) (args : List Reg) :
    Val.listLessDefined (rs.list args) (ws.list args) := by
  rw [Val.listLessDefined_iff, list, list, List.forall₂_map_left_iff, List.forall₂_map_right_iff,
    List.forall₂_same]
  exact fun r _ => lessDefined_iff.mp h r

/-- Arguments that gain definedness give the callee registers that do. -/
theorem lessDefined_ofParams (params : List Reg) {vs ws : List Val}
    (h : Val.listLessDefined vs ws) : (ofParams params vs).lessDefined (ofParams params ws) := by
  -- The registers filled so far are the accumulator of the fold, so the induction is over any two
  -- related accumulators.
  have hfold : ∀ rs rs' : Registers, rs.lessDefined rs' →
      ((params.zip vs).foldl (fun rs e => rs.set e.1 e.2) rs).lessDefined
        ((params.zip ws).foldl (fun rs e => rs.set e.1 e.2) rs') := by
    rw [Val.listLessDefined_iff] at h
    induction params generalizing vs ws with
    | nil => intro rs rs' hrs; simpa using hrs
    | cons r params ih =>
      intro rs rs' hrs
      cases h with
      | nil => simpa using hrs
      | cons hv htail => exact ih htail _ _ (lessDefined_set r hrs hv)
  exact hfold ∅ ∅ rfl

end Registers

/-! ## Operations, addresses and conditions -/

namespace Val

theorem addImm_lessDefined {v v' : Val} (n : Int64) (h : v.lessDefined v') :
    (v.addImm n).lessDefined (v'.addImm n) := by
  rcases lessDefined_iff.mp h with hv | rfl
  · cases v <;> simp_all [read, addImm]
  · exact lessDefined_refl _

/-- A binary operation that an undefined operand makes undefined gains definedness with its
operands. -/
theorem binary_lessDefined {f : Val → Val → Val}
    (hleft : ∀ v w, v.read = .undefined → f v w = .undefined)
    (hright : ∀ v w, w.read = .undefined → f v w = .undefined) {v v' w w' : Val}
    (hv : v.lessDefined v') (hw : w.lessDefined w') : (f v w).lessDefined (f v' w') := by
  rcases lessDefined_iff.mp hv with h | rfl
  · rw [hleft v w h]; rfl
  · rcases lessDefined_iff.mp hw with h | rfl
    · rw [hright v w h]; rfl
    · exact lessDefined_refl _

theorem add_lessDefined {v v' w w' : Val} (hv : v.lessDefined v') (hw : w.lessDefined w') :
    (v.add w).lessDefined (v'.add w') :=
  binary_lessDefined (fun v _ h => by cases v <;> simp_all [read, add])
    (fun v w h => by cases v <;> cases w <;> simp_all [read, add]) hv hw

theorem sub_lessDefined {v v' w w' : Val} (hv : v.lessDefined v') (hw : w.lessDefined w') :
    (v.sub w).lessDefined (v'.sub w') :=
  binary_lessDefined (fun v _ h => by cases v <;> simp_all [read, sub])
    (fun v w h => by cases v <;> cases w <;> simp_all [read, sub]) hv hw

theorem mul_lessDefined {v v' w w' : Val} (hv : v.lessDefined v') (hw : w.lessDefined w') :
    (v.mul w).lessDefined (v'.mul w') :=
  binary_lessDefined (fun v _ h => by cases v <;> simp_all [read, mul])
    (fun v w h => by cases v <;> cases w <;> simp_all [read, mul]) hv hw

end Val

theorem Operation.eval?_lessDefined {o : Operation} {vs ws : List Val} {v : Val}
    (hvs : Val.listLessDefined vs ws) (h : o.eval? vs = some v) :
    ∃ w, o.eval? ws = some w ∧ v.lessDefined w := by
  rw [Val.listLessDefined_iff] at hvs
  unfold Operation.eval? at h
  split at h
  · obtain _ | ⟨hv, _ | _⟩ := hvs
    cases h
    exact ⟨_, rfl, hv⟩
  · cases hvs
    exact ⟨v, h, Val.lessDefined_refl v⟩
  · cases hvs
    exact ⟨v, h, Val.lessDefined_refl v⟩
  · cases hvs
    exact ⟨v, h, Val.lessDefined_refl v⟩
  · obtain _ | ⟨hv, _ | _⟩ := hvs
    cases h
    exact ⟨_, rfl, Val.addImm_lessDefined _ hv⟩
  · obtain _ | ⟨hv, _ | ⟨hw, _ | _⟩⟩ := hvs
    cases h
    exact ⟨_, rfl, Val.add_lessDefined hv hw⟩
  · obtain _ | ⟨hv, _ | ⟨hw, _ | _⟩⟩ := hvs
    cases h
    exact ⟨_, rfl, Val.sub_lessDefined hv hw⟩
  · obtain _ | ⟨hv, _ | ⟨hw, _ | _⟩⟩ := hvs
    cases h
    exact ⟨_, rfl, Val.mul_lessDefined hv hw⟩
  · cases h

/-- An address that can be computed stays the same. -/
theorem Addressing.eval?_lessDefined {a : Addressing} {sp : Block} {vs ws : List Val}
    {place : Block × Int64} (hvs : Val.listLessDefined vs ws) (h : a.eval? sp vs = some place) :
    a.eval? sp ws = some place := by
  rw [Val.listLessDefined_iff] at hvs
  unfold Addressing.eval? at h
  split at h
  · cases hvs
    exact h
  · obtain _ | ⟨hv, _ | _⟩ := hvs
    rw [Val.eq_of_lessDefined hv (by simp [Val.read])]
    exact h
  · cases h

/-- A condition that has a truth value keeps it. -/
theorem Condition.eval?_lessDefined {c : Condition} {vs ws : List Val} {b : Bool}
    (hvs : Val.listLessDefined vs ws) (h : c.eval? vs = some b) : c.eval? ws = some b := by
  have hint : ∀ {n : Int32} {w : Val}, (Val.int n).lessDefined w → w = .int n := fun hw =>
    Val.eq_of_lessDefined hw (by simp [Val.read])
  have hlong : ∀ {n : Int64} {w : Val}, (Val.long n).lessDefined w → w = .long n := fun hw =>
    Val.eq_of_lessDefined hw (by simp [Val.read])
  rw [Val.listLessDefined_iff] at hvs
  unfold Condition.eval? at h ⊢
  split at h
  · rename_i himm
    obtain _ | ⟨hv, _ | _⟩ := hvs
    simpa only [himm, hint hv] using h
  · rename_i himm
    obtain _ | ⟨hv, _ | _⟩ := hvs
    simpa only [himm, hlong hv] using h
  · rename_i himm
    obtain _ | ⟨hv, _ | ⟨hw, _ | _⟩⟩ := hvs
    simpa only [himm, hint hv, hint hw] using h
  · rename_i himm
    obtain _ | ⟨hv, _ | ⟨hw, _ | _⟩⟩ := hvs
    simpa only [himm, hlong hv, hlong hw] using h
  · cases h

/-! ## Events and external functions -/

/-- An event with another in its place: a call of the same name, whose arguments and result are at
least as defined. -/
def Event.LessDefined (e f : Event) : Prop :=
  e.name = f.name ∧ Val.listLessDefined e.args f.args ∧ e.result.lessDefined f.result

instance (e f : Event) : Decidable (e.LessDefined f) :=
  inferInstanceAs (Decidable (_ ∧ _ ∧ _))

/-- The events of two steps match if both have none, or each has one and they are in order. -/
theorem Event.mismatch?_eq_none_iff {e f : Option Event} :
    Event.mismatch? e f = none ↔ List.Forall₂ Event.LessDefined e.toList f.toList := by
  cases e <;> cases f <;> simp [Event.mismatch?, Event.LessDefined]

/-- External functions whose results gain definedness with their arguments.  A result of `absent`
counts as `undefined`. -/
def Externals.Monotone (externals : Externals) : Prop :=
  ∀ name external, externals name = some external → ∀ vs ws, Val.listLessDefined vs ws →
    (external vs).read.lessDefined (external ws).read

namespace External

theorem sumOf_lessDefined (start : Int32) {vs ws : List Val} (h : Val.listLessDefined vs ws) :
    (sumOf start vs).lessDefined (sumOf start ws) := by
  rw [Val.listLessDefined_iff] at h
  induction h generalizing start with
  | nil => exact Val.lessDefined_refl _
  | @cons v w vs ws hv _ ih =>
    rcases Val.lessDefined_iff.mp hv with hundef | rfl
    · cases v <;> simp_all [Val.read, sumOf]
    · cases v <;> simp [sumOf, ih]

/-- The external functions that each add their arguments to a constant. -/
def sums (table : List (String × Int32)) : Externals := fun name =>
  (table.lookup name).map sumOf

/-- An environment of sums answers by the arguments alone. -/
theorem environment_sums (table : List (String × Int32)) :
    environment (table.map fun (name, k) => (name, .sum k)) = .constant (sums table) := by
  funext history name
  have hlookup : (table.map fun (name, k) => (name, External.sum k)).lookup name
      = (table.lookup name).map .sum := by
    induction table with
    | nil => rfl
    | cons e rest ih =>
      obtain ⟨name', k⟩ := e
      simp only [List.map_cons, List.lookup_cons, ih]
      split <;> rfl
  simp only [environment, Environment.constant, sums, hlookup, Option.map_map]
  rfl

theorem sums_monotone (table : List (String × Int32)) : (sums table).Monotone := by
  intro name external hexternal vs ws hvs
  obtain ⟨k, _, rfl⟩ := Option.map_eq_some_iff.mp hexternal
  exact Val.read_lessDefined_read (sumOf_lessDefined k hvs)

end External

end RegisterTransfer
