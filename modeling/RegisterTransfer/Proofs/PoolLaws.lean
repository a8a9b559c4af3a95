import RegisterTransfer.TailCall.Pool
set_option autoImplicit false

/-!
# Laws of a pool

What a pool keeps is what the marks say that it has accepted (`Pool.Valid`).  So a pool is a lawful
group: it runs every job once, answers with the first error, answers without an error only if there
was none, and revokes nothing before there is one (`Pool.group_lawful`).
-/

namespace RegisterTransfer

/-! ## Histories -/

namespace Mark

variable {history more : List Mark} {mark : Mark}

theorem orderly_nil : Orderly [] := by
  intro before after h
  simp at h

theorem Orderly.of_append (h : Orderly (history ++ more)) : Orderly history := by
  intro before after hsplit
  exact h before (after ++ more) (by simp [hsplit])

theorem orderly_concat_iff :
    Orderly (history ++ [mark]) ↔
      Orderly history ∧ (mark = .revoked → ∃ m ∈ history, m.error? ≠ none) := by
  constructor
  · intro h
    exact ⟨h.of_append, fun hmark => h history [] (by rw [hmark])⟩
  · rintro ⟨h, hlast⟩ before after hsplit
    rcases after.eq_nil_or_concat with rfl | ⟨after, last, rfl⟩
    · obtain ⟨rfl, hmark⟩ := List.append_inj' hsplit rfl
      exact hlast (List.cons.inj hmark).1
    · have hsplit' : history ++ [mark] = (before ++ .revoked :: after) ++ [last] := by
        simpa using hsplit
      exact h before after (List.append_inj' hsplit' rfl).1

theorem findSome?_error?_ne_none_iff :
    history.findSome? error? ≠ none ↔ ∃ m ∈ history, m.error? ≠ none := by
  simp [List.findSome?_eq_none_iff]

end Mark

/-! ## Pools -/

namespace Pool

variable {limit : Option Nat} {jobs : Nat} {history marks : List Mark} {mark : Mark}
  {pool pool' : Pool} {answer : Option Interruption}

/-- What a pool knows of the marks that it has accepted. -/
structure Valid (history : List Mark) (pool : Pool) : Prop where
  started : ∀ n, history.count (.started n) = if n ∈ pool.started then 1 else 0
  returned : ∀ n, n ∈ pool.returned ↔ ∃ error, .returned n error ∈ history
  starts_first : ∀ n ∈ pool.returned, n ∈ pool.started
  error : pool.error = history.findSome? Mark.error?
  orderly : Mark.Orderly history

theorem Valid.empty : Valid [] empty where
  started := by simp [Pool.empty]
  returned := by simp [Pool.empty]
  starts_first := by simp [Pool.empty]
  error := rfl
  orderly := Mark.orderly_nil

theorem Valid.mem_started_iff (h : pool.Valid history) (n : Nat) :
    n ∈ pool.started ↔ .started n ∈ history := by
  have hcount : .started n ∈ history ↔ 0 < history.count (.started n) := List.count_pos_iff.symm
  rw [hcount, h.started n]
  split <;> simp [*]

theorem Valid.accept (h : pool.Valid history) (haccept : pool.accept? limit jobs mark = some pool') :
    pool'.Valid (history ++ [mark]) := by
  cases mark with
  | started n =>
    simp only [accept?, Option.ite_none_right_eq_some, Option.some.injEq] at haccept
    obtain ⟨⟨_, hnew, _⟩, rfl⟩ := haccept
    refine ⟨fun m => ?_, fun m => ?_, fun m hm => ?_, ?_, ?_⟩
    · rw [List.count_append, h.started m]
      by_cases hm : m = n
      · subst hm
        simp [hnew]
      · simp [hm, Ne.symm hm]
    · simp [h.returned m]
    · exact List.mem_cons_of_mem n (h.starts_first m hm)
    · simp [h.error, Mark.error?]
    · exact Mark.orderly_concat_iff.mpr ⟨h.orderly, nofun⟩
  | returned n error =>
    simp only [accept?, Option.ite_none_right_eq_some, Option.some.injEq] at haccept
    obtain ⟨⟨hstarted, _⟩, rfl⟩ := haccept
    refine ⟨fun m => ?_, fun m => ?_, fun m hm => ?_, ?_, ?_⟩
    · simp [h.started m]
    · simp [h.returned m, exists_or, or_comm]
    · rcases List.mem_cons.mp hm with rfl | hm
      · exact hstarted
      · exact h.starts_first m hm
    · simp [h.error, Mark.error?]
    · exact Mark.orderly_concat_iff.mpr ⟨h.orderly, nofun⟩
  | revoked =>
    simp only [accept?, Option.ite_none_left_eq_some, Option.some.injEq] at haccept
    obtain ⟨herror, rfl⟩ := haccept
    refine ⟨fun m => ?_, fun m => ?_, h.starts_first, ?_, ?_⟩
    · simp [h.started m]
    · simp [h.returned m]
    · simp [h.error, Mark.error?]
    · rw [h.error] at herror
      exact Mark.orderly_concat_iff.mpr
        ⟨h.orderly, fun _ => Mark.findSome?_error?_ne_none_iff.mp herror⟩

theorem Valid.follow (h : pool.Valid history)
    (hfollow : follow? limit jobs pool marks = some pool') : pool'.Valid (history ++ marks) := by
  induction marks generalizing pool history with
  | nil =>
    obtain rfl : pool = pool' := Option.some.inj hfollow
    simpa using h
  | cons mark marks ih =>
    obtain ⟨next, haccept, hrest⟩ := Option.bind_eq_some_iff.mp hfollow
    simpa using ih (h.accept haccept) hrest

theorem answer?_eq_some_iff :
    answer? limit jobs history = some answer ↔
      ∃ pool, follow? limit jobs empty history = some pool ∧ (∀ n < jobs, n ∈ pool.returned) ∧
        pool.error = answer := by
  simp [answer?, Option.bind_eq_some_iff]

theorem group_lawful : group.Lawful where
  runs_once {limit jobs history answer} h n hn := by
    obtain ⟨pool, hfollow, hreturned, _⟩ := answer?_eq_some_iff.mp h
    have hvalid : pool.Valid history := Valid.empty.follow hfollow
    rw [hvalid.started n, if_pos (hvalid.starts_first n (hreturned n hn))]
    exact ⟨rfl, (hvalid.returned n).mp (hreturned n hn)⟩
  answers_first {limit jobs history why} h := by
    obtain ⟨pool, hfollow, _, herror⟩ := answer?_eq_some_iff.mp h
    have hvalid : pool.Valid history := Valid.empty.follow hfollow
    rw [← hvalid.error, herror]
  answers_none {limit jobs history} h n error hmem := by
    obtain ⟨pool, hfollow, _, herror⟩ := answer?_eq_some_iff.mp h
    have hvalid : pool.Valid history := Valid.empty.follow hfollow
    have hnone : history.findSome? Mark.error? = none := by rw [← hvalid.error, herror]
    exact List.findSome?_eq_none_iff.mp hnone _ hmem
  revokes_after {limit jobs history answer} h := by
    obtain ⟨pool, hfollow, _⟩ := answer?_eq_some_iff.mp h
    exact (Valid.empty.follow hfollow : pool.Valid history).orderly

end Pool

end RegisterTransfer
