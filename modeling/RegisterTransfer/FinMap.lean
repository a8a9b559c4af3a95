set_option autoImplicit false

/-!
# Finite maps

A finite map is a list of entries whose keys strictly increase.  The list is therefore
determined by the map, so two maps that answer every lookup alike are equal (`FinMap.ext_get?`),
and the entries come out in key order.
-/

namespace RegisterTransfer

/-- A finite map from `κ` to `α`: its entries, in strictly increasing order of their keys. -/
structure FinMap (κ α : Type) [Ord κ] where
  entries : List (κ × α)
  sorted : entries.Pairwise fun a b => compare a.1 b.1 = .lt

namespace FinMap

variable {κ α β : Type} [Ord κ]

instance [DecidableEq κ] [DecidableEq α] : DecidableEq (FinMap κ α) := fun m n =>
  if h : m.entries = n.entries then
    isTrue (by cases m; cases n; cases h; rfl)
  else
    isFalse fun e => h (congrArg entries e)

/-- The map without entries. -/
def empty : FinMap κ α := ⟨[], .nil⟩

instance : EmptyCollection (FinMap κ α) := ⟨empty⟩

instance : Inhabited (FinMap κ α) := ⟨∅⟩

/-- The keys, in increasing order. -/
def keys (m : FinMap κ α) : List κ := m.entries.map (·.1)

/-- The values, in the order of their keys. -/
def values (m : FinMap κ α) : List α := m.entries.map (·.2)

/-- The number of keys. -/
def size (m : FinMap κ α) : Nat := m.entries.length

/-! ## Looking up -/

/-- The value of the first entry whose key compares equal to `k`. -/
def find (k : κ) : List (κ × α) → Option α
  | [] => none
  | (k', a) :: rest => if compare k k' = .eq then some a else find k rest

/-- The value of a key, if it has one. -/
def get? (m : FinMap κ α) (k : κ) : Option α := find k m.entries

/-- Whether a key has a value. -/
def contains (m : FinMap κ α) (k : κ) : Bool := (m.get? k).isSome

/-! ## Inserting -/

/-- The entries with `a` put at `k`, in one pass: an entry of the same key is replaced. -/
def put (k : κ) (a : α) : List (κ × α) → List (κ × α)
  | [] => [(k, a)]
  | (k', a') :: rest =>
    match compare k k' with
    | .lt => (k, a) :: (k', a') :: rest
    | .eq => (k, a) :: rest
    | .gt => (k', a') :: put k a rest

theorem mem_put {k : κ} {a : α} {e : κ × α} {l : List (κ × α)} (h : e ∈ put k a l) :
    e = (k, a) ∨ e ∈ l := by
  induction l with
  | nil => simpa [put] using h
  | cons x rest ih =>
    obtain ⟨k', a'⟩ := x
    unfold put at h
    split at h <;> grind

theorem sorted_put [Std.TransOrd κ] [Std.LawfulEqOrd κ] (k : κ) (a : α) {l : List (κ × α)}
    (h : l.Pairwise fun x y => compare x.1 y.1 = .lt) :
    (put k a l).Pairwise fun x y => compare x.1 y.1 = .lt := by
  induction l with
  | nil => exact List.pairwise_singleton _ _
  | cons x rest ih =>
    obtain ⟨k', a'⟩ := x
    obtain ⟨hhead, htail⟩ := List.pairwise_cons.mp h
    unfold put
    split
    · rename_i hlt
      refine List.pairwise_cons.mpr ⟨fun e he => ?_, h⟩
      rcases List.mem_cons.mp he with rfl | hmem
      · exact hlt
      · exact Std.TransCmp.lt_trans hlt (hhead e hmem)
    · rename_i heq
      obtain rfl := Std.LawfulEqCmp.eq_of_compare heq
      exact List.pairwise_cons.mpr ⟨hhead, htail⟩
    · rename_i hgt
      refine List.pairwise_cons.mpr ⟨fun e he => ?_, ih htail⟩
      rcases mem_put he with rfl | hmem
      · exact Std.OrientedCmp.lt_of_gt hgt
      · exact hhead e hmem

/-- The map with `a` at `k`. -/
def insert [Std.TransOrd κ] [Std.LawfulEqOrd κ] (m : FinMap κ α) (k : κ) (a : α) : FinMap κ α :=
  ⟨put k a m.entries, sorted_put k a m.sorted⟩

/-- The map of a list of entries; a later entry of the same key wins. -/
def ofList [Std.TransOrd κ] [Std.LawfulEqOrd κ] (l : List (κ × α)) : FinMap κ α :=
  l.foldl (fun m e => m.insert e.1 e.2) ∅

/-! ## Filtering and mapping -/

/-- The entries that `keep` accepts. -/
def filter (keep : κ → α → Bool) (m : FinMap κ α) : FinMap κ α :=
  ⟨m.entries.filter fun e => keep e.1 e.2, m.sorted.filter _⟩

/-- The map with every value replaced by its image. -/
def map (f : κ → α → β) (m : FinMap κ α) : FinMap κ β :=
  ⟨m.entries.map fun e => (e.1, f e.1 e.2), m.sorted.map _ fun _ _ h => h⟩

/-! ## Laws of lookup -/

@[simp] theorem get?_empty (k : κ) : (∅ : FinMap κ α).get? k = none := rfl

theorem find_put_self [Std.TransOrd κ] [Std.LawfulEqOrd κ] (k : κ) (a : α) (l : List (κ × α)) :
    find k (put k a l) = some a := by
  induction l with
  | nil => simp [put, find]
  | cons x rest ih =>
    obtain ⟨k', a'⟩ := x
    unfold put
    split
    · simp [find]
    · simp [find]
    · rename_i hgt
      simp [find, hgt, ih]

theorem find_put_ne [Std.TransOrd κ] [Std.LawfulEqOrd κ] {k k' : κ} (a : α) (l : List (κ × α))
    (h : k' ≠ k) : find k' (put k a l) = find k' l := by
  have hne : compare k' k ≠ .eq := fun e => h (Std.LawfulEqCmp.eq_of_compare e)
  induction l with
  | nil => simp [put, find, hne]
  | cons x rest ih =>
    obtain ⟨k'', a''⟩ := x
    unfold put
    split
    · simp [find, hne]
    · rename_i heq
      obtain rfl := Std.LawfulEqCmp.eq_of_compare heq
      simp [find, hne]
    · simp only [find, ih]

@[simp] theorem get?_insert_self [Std.TransOrd κ] [Std.LawfulEqOrd κ] (m : FinMap κ α) (k : κ)
    (a : α) : (m.insert k a).get? k = some a :=
  find_put_self k a m.entries

theorem get?_insert_ne [Std.TransOrd κ] [Std.LawfulEqOrd κ] (m : FinMap κ α) {k k' : κ} (a : α)
    (h : k' ≠ k) : (m.insert k a).get? k' = m.get? k' :=
  find_put_ne a m.entries h

theorem find_eq_some_iff_mem [Std.TransOrd κ] [Std.LawfulEqOrd κ] {k : κ} {a : α}
    {l : List (κ × α)} (h : l.Pairwise fun x y => compare x.1 y.1 = .lt) :
    find k l = some a ↔ (k, a) ∈ l := by
  induction l with
  | nil => simp [find]
  | cons x rest ih =>
    obtain ⟨k', a'⟩ := x
    obtain ⟨hhead, htail⟩ := List.pairwise_cons.mp h
    by_cases hk : compare k k' = .eq
    · obtain rfl := Std.LawfulEqCmp.eq_of_compare hk
      have hnot : (k, a) ∉ rest := fun hmem => by
        have := hhead _ hmem
        simp_all
      simp [find, hnot, eq_comm]
    · have hne : k ≠ k' := fun e => hk (by simp [e])
      simp [find, hk, ih htail, hne]

theorem get?_eq_some_iff_mem [Std.TransOrd κ] [Std.LawfulEqOrd κ] {m : FinMap κ α} {k : κ} {a : α} :
    m.get? k = some a ↔ (k, a) ∈ m.entries :=
  find_eq_some_iff_mem m.sorted

theorem mem_keys_iff [Std.TransOrd κ] [Std.LawfulEqOrd κ] {m : FinMap κ α} {k : κ} :
    k ∈ m.keys ↔ ∃ a, m.get? k = some a := by
  simp [keys, get?_eq_some_iff_mem]

theorem contains_iff_mem_keys [Std.TransOrd κ] [Std.LawfulEqOrd κ] {m : FinMap κ α} {k : κ} :
    m.contains k = true ↔ k ∈ m.keys := by
  rw [contains, Option.isSome_iff_exists, mem_keys_iff]

theorem nodup_keys [Std.TransOrd κ] (m : FinMap κ α) : m.keys.Nodup := by
  refine List.pairwise_map.mpr (m.sorted.imp ?_)
  intro a b hlt heq
  simp [heq, Std.ReflCmp.compare_self] at hlt

theorem get?_filter [Std.TransOrd κ] [Std.LawfulEqOrd κ] (keep : κ → α → Bool) (m : FinMap κ α)
    (k : κ) : (m.filter keep).get? k = (m.get? k).filter (keep k) := by
  apply Option.ext
  intro a
  rw [Option.filter_eq_some_iff, get?_eq_some_iff_mem, get?_eq_some_iff_mem]
  exact List.mem_filter

theorem get?_map [Std.LawfulEqOrd κ] (f : κ → α → β) (m : FinMap κ α) (k : κ) :
    (m.map f).get? k = (m.get? k).map (f k) := by
  change find k (m.entries.map fun e => (e.1, f e.1 e.2)) = (find k m.entries).map (f k)
  induction m.entries with
  | nil => rfl
  | cons x rest ih =>
    by_cases hk : compare k x.1 = .eq
    · obtain rfl := Std.LawfulEqCmp.eq_of_compare hk
      simp [find]
    · simpa [find, hk] using ih

theorem eq_of_mem_iff [Std.TransOrd κ] {l l' : List (κ × α)}
    (h : l.Pairwise fun x y => compare x.1 y.1 = .lt)
    (h' : l'.Pairwise fun x y => compare x.1 y.1 = .lt) (hmem : ∀ e, e ∈ l ↔ e ∈ l') : l = l' := by
  induction l generalizing l' with
  | nil =>
    cases l' with
    | nil => rfl
    | cons y ys => simpa using hmem y
  | cons x xs ih =>
    cases l' with
    | nil => simpa using hmem x
    | cons y ys =>
      obtain ⟨hx, hxs⟩ := List.pairwise_cons.mp h
      obtain ⟨hy, hys⟩ := List.pairwise_cons.mp h'
      have hirr : ∀ {a : κ}, compare a a ≠ .lt := fun hlt => by
        simp [Std.ReflCmp.compare_self] at hlt
      have hxy : x = y := by
        rcases List.mem_cons.mp ((hmem x).mp List.mem_cons_self) with rfl | hin
        · rfl
        · rcases List.mem_cons.mp ((hmem y).mpr List.mem_cons_self) with rfl | hin'
          · rfl
          · exact absurd (Std.TransCmp.lt_trans (hy x hin) (hx y hin')) hirr
      subst hxy
      rw [ih hxs hys fun e => ?_]
      constructor
      · intro he
        rcases List.mem_cons.mp ((hmem e).mp (List.mem_cons_of_mem _ he)) with rfl | hin
        · exact absurd (hx _ he) hirr
        · exact hin
      · intro he
        rcases List.mem_cons.mp ((hmem e).mpr (List.mem_cons_of_mem _ he)) with rfl | hin
        · exact absurd (hy _ he) hirr
        · exact hin

/-- Maps that answer every lookup alike are equal. -/
theorem ext_get? [Std.TransOrd κ] [Std.LawfulEqOrd κ] {m n : FinMap κ α}
    (h : ∀ k, m.get? k = n.get? k) : m = n := by
  have he : m.entries = n.entries :=
    eq_of_mem_iff m.sorted n.sorted fun ⟨k, a⟩ => by
      rw [← get?_eq_some_iff_mem, ← get?_eq_some_iff_mem, h]
  cases m; cases n; cases he; rfl

/-! ## Lists of entries -/

/-- A key above all others goes to the end. -/
theorem put_eq_append [Std.TransOrd κ] {k : κ} {a : α} {l : List (κ × α)}
    (h : ∀ e ∈ l, compare e.1 k = .lt) : put k a l = l ++ [(k, a)] := by
  induction l with
  | nil => rfl
  | cons x l ih =>
    have hgt : compare k x.1 = .gt := Std.OrientedCmp.gt_of_lt (h x List.mem_cons_self)
    have hrest := ih fun e he => h e (List.mem_cons_of_mem _ he)
    simp [put, hgt, hrest]

/-- A map is the map of its entries. -/
theorem ofList_entries [Std.TransOrd κ] [Std.LawfulEqOrd κ] (m : FinMap κ α) :
    ofList m.entries = m := by
  -- Entries in order go to the end one after the other.
  have hfold : ∀ (l : List (κ × α)) (n : FinMap κ α),
      (n.entries ++ l).Pairwise (fun x y => compare x.1 y.1 = .lt) →
        (l.foldl (fun m e => m.insert e.1 e.2) n).entries = n.entries ++ l := by
    intro l
    induction l with
    | nil => simp
    | cons x l ih =>
      intro n hsorted
      have hput : (n.insert x.1 x.2).entries = n.entries ++ [x] := by
        refine put_eq_append fun e he => ?_
        exact (List.pairwise_append.mp hsorted).2.2 e he x List.mem_cons_self
      rw [List.foldl_cons, ih _ (by simpa [hput] using hsorted), hput, List.append_assoc]
      rfl
  have hentries : (ofList m.entries).entries = m.entries := hfold m.entries ∅ m.sorted
  generalize ofList m.entries = n at hentries
  cases m; cases n; cases hentries; rfl

end FinMap

end RegisterTransfer
