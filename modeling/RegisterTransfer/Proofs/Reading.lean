import Mathlib.Data.List.Forall2
import RegisterTransfer.Parser.Basic
set_option autoImplicit false

/-!
# What a parser reads

Three statements about a parser, and how they pass through sequence, choice and repetition.
`Reads` says that a text is read to its end, wherever what comes next is as it must be; `Refuses`
that an input cannot be read; and `Yields` what is true of every value that was read.  Offsets play
no part in them: they only serve reports.
-/

namespace RegisterTransfer

theorem Utf8.encode_append (s t : String) : encode (s ++ t) = encode s ++ encode t := by
  simp [encode, String.toByteArray_append]

namespace Parser

variable {α β : Type}

/-- Wherever the bytes that come next satisfy `Follows`, `p` reads `text` as a value of which `Q`
holds. -/
def Reads (p : Parser α) (text : String) (Follows : List UInt8 → Prop) (Q : α → Prop) : Prop :=
  ∀ offset rest, Follows rest → ∃ a offset',
    Q a ∧ p.run ⟨offset, Utf8.encode text ++ rest⟩ = some (a, ⟨offset', rest⟩)

/-- `p` reads nothing off the front of an input. -/
def Refuses (p : Parser α) (input : List UInt8) : Prop :=
  ∀ offset, p.run ⟨offset, input⟩ = none

/-- `Q` holds of every value that `p` reads. -/
def Yields (p : Parser α) (Q : α → Prop) : Prop :=
  ∀ c a c', p.run c = some (a, c') → Q a

/-- Anything may follow. -/
def Anything (_ : List UInt8) : Prop := True

theorem run_map (g : α → β) (p : Parser α) (c : Cursor) :
    (g <$> p).run c = (p.run c).map fun r => (g r.1, r.2) := by
  change (p.run c).bind (fun r => some (g r.1, r.2)) = _
  cases p.run c <;> rfl

/-! ## Reading -/

section Reads

variable {p q : Parser α} {f : α → Parser β} {text text' : String} {F G : List UInt8 → Prop}
variable {P Q : α → Prop} {R : β → Prop} {a : α}

theorem Reads.of_text (h : Reads p text F Q) (htext : text' = text) : Reads p text' F Q :=
  htext ▸ h

theorem Reads.mono (h : Reads p text F P) (hF : ∀ rest, G rest → F rest) (hQ : ∀ a, P a → Q a) :
    Reads p text G Q := by
  intro offset rest hrest
  obtain ⟨a, offset', ha, hrun⟩ := h offset rest (hF rest hrest)
  exact ⟨a, offset', hQ a ha, hrun⟩

/-- One text and then another: what comes after the first is the second. -/
theorem Reads.bindAll (hp : Reads p text F P)
    (hF : ∀ rest, G rest → F (Utf8.encode text' ++ rest))
    (hf : ∀ a, P a → Reads (f a) text' G R) : Reads (p >>= f) (text ++ text') G R := by
  intro offset rest hrest
  obtain ⟨a, offset', ha, hrun⟩ := hp offset (Utf8.encode text' ++ rest) (hF rest hrest)
  obtain ⟨b, offset'', hb, hrun'⟩ := hf a ha offset' rest hrest
  refine ⟨b, offset'', hb, ?_⟩
  rw [Utf8.encode_append, List.append_assoc, run_bind, hrun]
  exact hrun'

theorem Reads.bind (hp : Reads p text F (· = a))
    (hF : ∀ rest, G rest → F (Utf8.encode text' ++ rest)) (hf : Reads (f a) text' G R) :
    Reads (p >>= f) (text ++ text') G R := by
  apply hp.bindAll hF
  rintro _ rfl
  exact hf

theorem Reads.map {g : α → β} (hp : Reads p text F P) (hR : ∀ a, P a → R (g a)) :
    Reads (p >>= fun a => pure (g a)) text F R := by
  intro offset rest hrest
  obtain ⟨a, offset', ha, hrun⟩ := hp offset rest hrest
  refine ⟨g a, offset', hR a ha, ?_⟩
  rw [run_bind, hrun]
  rfl

/-- What is made of a value that was read. -/
theorem Reads.ret {g : α → β} (hp : Reads p text F (· = a)) :
    Reads (p >>= fun a => pure (g a)) text F (· = g a) :=
  hp.map fun _ h => congrArg g h

theorem Reads.rule (h : Reads p text F Q) (name : String) : Reads (rule name p) text F Q := h

theorem Reads.described (h : Reads p text F Q) (name want : String) :
    Reads (described name want p) text F Q := h

theorem Reads.orElse_left (hp : Reads p text F Q) : Reads (p <|> q) text F Q := by
  intro offset rest hrest
  obtain ⟨a, offset', ha, hrun⟩ := hp offset rest hrest
  refine ⟨a, offset', ha, ?_⟩
  rw [run_orElse, hrun]
  rfl

/-- The second alternative reads what the first one refuses. -/
theorem Reads.orElse_right (hq : Reads q text F Q)
    (hp : ∀ rest, F rest → Refuses p (Utf8.encode text ++ rest)) : Reads (p <|> q) text F Q := by
  intro offset rest hrest
  obtain ⟨a, offset', ha, hrun⟩ := hq offset rest hrest
  refine ⟨a, offset', ha, ?_⟩
  rw [run_orElse, hp rest hrest offset]
  exact hrun

theorem Reads.optional (hp : Reads p text F (· = a)) :
    Reads (optional p) text F (· = some a) := by
  apply Reads.orElse_left
  intro offset rest hrest
  obtain ⟨_, offset', rfl, hrun⟩ := hp offset rest hrest
  refine ⟨some _, offset', rfl, ?_⟩
  rw [run_map, hrun]
  rfl

theorem run_optional_of_refuses {input : List UInt8} (h : Refuses p input) (offset : Nat) :
    (Parser.optional p).run ⟨offset, input⟩ = some (none, ⟨offset, input⟩) := by
  unfold Parser.optional
  rw [run_orElse, run_map, h offset]
  rfl

/-- Nothing is read where the thing that may stand does not stand. -/
theorem reads_optional_none : Reads (Parser.optional p) "" (Refuses p) (· = none) := by
  intro offset rest hrest
  exact ⟨none, offset, rfl, run_optional_of_refuses hrest offset⟩

end Reads

/-! ## Refusing -/

section Refuses

variable {p q : Parser α} {f : α → Parser β} {input : List UInt8}

theorem Refuses.rule (h : Refuses p input) (name : String) : Refuses (rule name p) input := h

theorem Refuses.described (h : Refuses p input) (name want : String) :
    Refuses (described name want p) input := h

theorem Refuses.bind (h : Refuses p input) : Refuses (p >>= f) input := by
  intro offset
  rw [run_bind, h offset]
  rfl

theorem Refuses.orElse (hp : Refuses p input) (hq : Refuses q input) :
    Refuses (p <|> q) input := by
  intro offset
  rw [run_orElse, hp offset]
  exact hq offset

/-- A sequence is refused where its first part reads a text and its second refuses what follows. -/
theorem Reads.refuses_bind {text : String} {F : List UInt8 → Prop} {P : α → Prop}
    (hp : Reads p text F P) (hF : F input) (hf : ∀ a, P a → Refuses (f a) input) :
    Refuses (p >>= f) (Utf8.encode text ++ input) := by
  intro offset
  obtain ⟨a, offset', ha, hrun⟩ := hp offset input hF
  rw [run_bind, hrun]
  exact hf a ha offset'

end Refuses

/-! ## Repetition -/

section Repetition

variable {p : Parser α} {F : List UInt8 → Prop} {rest : List UInt8}

/-- A repeated parser reads items one after another, and stops where it is refused.  Every item
takes a byte, so the bytes that bound the repetition suffice. -/
theorem run_collect {xs : List β} {bytes : β → List UInt8} {R : β → α → Prop}
    (hitem : ∀ x ∈ xs, ∀ offset tail, F tail → ∃ a offset',
      R x a ∧ p.run ⟨offset, bytes x ++ tail⟩ = some (a, ⟨offset', tail⟩))
    (hnext : ∀ x ∈ xs, ∀ tail, F (bytes x ++ tail)) (hrest : F rest) (hstop : Refuses p rest)
    (fuel : List UInt8) (hfuel : xs.length ≤ fuel.length) (offset : Nat) :
    ∃ as offset', List.Forall₂ R xs as ∧
      collect p.run fuel ⟨offset, xs.flatMap bytes ++ rest⟩ = (as, ⟨offset', rest⟩) := by
  induction xs generalizing fuel offset with
  | nil =>
    refine ⟨[], offset, .nil, ?_⟩
    cases fuel with
    | nil => rfl
    | cons b fuel => simp [collect, hstop offset]
  | cons x xs ih =>
    cases fuel with
    | nil => simp at hfuel
    | cons b fuel =>
      have htail : F (xs.flatMap bytes ++ rest) := by
        cases xs with
        | nil => exact hrest
        | cons y ys =>
          rw [List.flatMap_cons, List.append_assoc]
          exact hnext y (by simp) _
      obtain ⟨a, offset', ha, hrun⟩ := hitem x (by simp) offset _ htail
      obtain ⟨as, offset'', has, hcollect⟩ :=
        ih (fun y hy => hitem y (by simp [hy])) (fun y hy => hnext y (by simp [hy])) fuel
          (by simpa using hfuel) offset'
      refine ⟨a :: as, offset'', .cons ha has, ?_⟩
      rw [List.flatMap_cons, List.append_assoc]
      simp only [collect, hrun, hcollect]

theorem run_many {xs : List β} {bytes : β → List UInt8} {R : β → α → Prop}
    (hitem : ∀ x ∈ xs, ∀ offset tail, F tail → ∃ a offset',
      R x a ∧ p.run ⟨offset, bytes x ++ tail⟩ = some (a, ⟨offset', tail⟩))
    (hnext : ∀ x ∈ xs, ∀ tail, F (bytes x ++ tail)) (hne : ∀ x ∈ xs, bytes x ≠ [])
    (hrest : F rest) (hstop : Refuses p rest) (offset : Nat) :
    ∃ as offset', List.Forall₂ R xs as ∧
      (many p).run ⟨offset, xs.flatMap bytes ++ rest⟩ = some (as, ⟨offset', rest⟩) := by
  have hlength : xs.length ≤ (xs.flatMap bytes).length := by
    clear hitem hnext hrest hstop
    induction xs with
    | nil => simp
    | cons x xs ih =>
      have hx := List.length_pos_iff.mpr (hne x (by simp))
      have hxs := ih fun y hy => hne y (by simp [hy])
      simp only [List.flatMap_cons, List.length_append, List.length_cons]
      omega
  obtain ⟨as, offset', has, hcollect⟩ := run_collect hitem hnext hrest hstop
    (xs.flatMap bytes ++ rest) (by simp only [List.length_append]; omega) offset
  exact ⟨as, offset', has, congrArg some hcollect⟩

theorem encode_join (texts : List String) :
    Utf8.encode (String.join texts) = texts.flatMap Utf8.encode := by
  induction texts with
  | nil => rfl
  | cons text texts ih => rw [String.join_cons, Utf8.encode_append, ih, List.flatMap_cons]

/-- Items are read one after another if each of them may follow another, and what comes after the
last one may follow and is no item. -/
theorem Reads.many {xs : List β} {text : β → String} {R : β → α → Prop}
    (hitem : ∀ x ∈ xs, Reads p (text x) F (R x))
    (hnext : ∀ x ∈ xs, ∀ tail, F (Utf8.encode (text x) ++ tail))
    (hne : ∀ x ∈ xs, Utf8.encode (text x) ≠ []) :
    Reads (many p) (String.join (xs.map text)) (fun rest => F rest ∧ Refuses p rest)
      (List.Forall₂ R xs) := by
  intro offset rest hrest
  rw [encode_join, List.flatMap_map]
  exact run_many hitem hnext hne hrest.1 hrest.2 offset

/-- Bytes of a class are read as far as they go. -/
theorem run_many_satisfy (want : String) (member : UInt8 → Bool) (c : Cursor) :
    ∃ offset', (Parser.many (satisfy want member)).run c =
      some (c.rest.takeWhile member, ⟨offset', c.rest.dropWhile member⟩) := by
  have hcollect : ∀ (fuel input : List UInt8) (offset : Nat), input.length ≤ fuel.length →
      ∃ offset', collect (satisfy want member).run fuel ⟨offset, input⟩ =
        (input.takeWhile member, ⟨offset', input.dropWhile member⟩) := by
    intro fuel
    induction fuel with
    | nil =>
      intro input offset hlength
      obtain rfl : input = [] := List.length_eq_zero_iff.mp (by simpa using hlength)
      exact ⟨offset, rfl⟩
    | cons b fuel ih =>
      intro input offset hlength
      cases input with
      | nil => exact ⟨offset, by simp [collect, satisfy, token]⟩
      | cons d input =>
        by_cases hd : member d
        · obtain ⟨offset', hrun⟩ := ih input (offset + 1) (by simpa using hlength)
          have hstep : (satisfy want member).run ⟨offset, d :: input⟩ =
              some (d, ⟨offset + 1, input⟩) := by simp [satisfy, token, hd]
          refine ⟨offset', ?_⟩
          rw [List.takeWhile_cons_of_pos hd, List.dropWhile_cons_of_pos hd]
          simp only [collect, hstep, hrun]
        · have hstep : (satisfy want member).run ⟨offset, d :: input⟩ = none := by
            simp [satisfy, token, hd]
          refine ⟨offset, ?_⟩
          rw [List.takeWhile_cons_of_neg hd, List.dropWhile_cons_of_neg hd]
          simp only [collect, hstep]
  obtain ⟨offset', hrun⟩ := hcollect c.rest c.rest c.offset (Nat.le_refl _)
  exact ⟨offset', congrArg some hrun⟩

end Repetition

/-! ## What is true of values -/

section Yields

variable {p q : Parser α} {f : α → Parser β} {P Q : α → Prop} {R : β → Prop} {a : α}

theorem yields_true (p : Parser α) : Yields p fun _ => True :=
  fun _ _ _ _ => trivial

theorem yields_pure (h : Q a) : Yields (pure a) Q := by
  intro c a' c' hrun
  cases hrun
  exact h

theorem Yields.rule (h : Yields p Q) (name : String) : Yields (rule name p) Q := h

theorem Yields.described (h : Yields p Q) (name want : String) :
    Yields (described name want p) Q := h

theorem Yields.bind (hp : Yields p P) (hf : ∀ a, P a → Yields (f a) R) : Yields (p >>= f) R := by
  intro c b c' hrun
  rw [run_bind, Option.bind_eq_some_iff] at hrun
  obtain ⟨⟨a, c''⟩, ha, hb⟩ := hrun
  exact hf a (hp c a c'' ha) c'' b c' hb

/-- What comes after something of no account. -/
theorem Yields.after (hf : ∀ a, Yields (f a) R) : Yields (p >>= f) R :=
  (yields_true p).bind fun a _ => hf a

theorem Yields.orElse (hp : Yields p Q) (hq : Yields q Q) : Yields (p <|> q) Q := by
  intro c a c' hrun
  rw [run_orElse] at hrun
  cases hr : p.run c with
  | none =>
    rw [hr] at hrun
    exact hq c a c' hrun
  | some r =>
    rw [hr] at hrun
    cases hrun
    exact hp c a c' hr

theorem Yields.optional (hp : Yields p Q) : Yields (optional p) fun o => ∀ a ∈ o, Q a := by
  apply Yields.orElse
  · intro c o c' hrun
    rw [run_map, Option.map_eq_some_iff] at hrun
    obtain ⟨⟨a, c''⟩, ha, heq⟩ := hrun
    cases heq
    intro a' ha'
    cases Option.mem_some.mp ha'
    exact hp c a c'' ha
  · apply yields_pure
    simp

theorem Yields.many (hp : Yields p Q) : Yields (many p) fun as => ∀ a ∈ as, Q a := by
  have hcollect : ∀ (fuel : List UInt8) (c : Cursor), ∀ a ∈ (collect p.run fuel c).1, Q a := by
    intro fuel
    induction fuel with
    | nil =>
      intro c a ha
      cases ha
    | cons b fuel ih =>
      intro c a ha
      cases hr : p.run c with
      | none => simp [collect, hr] at ha
      | some r =>
        simp only [collect, hr, List.mem_cons] at ha
        rcases ha with rfl | ha
        · exact hp c _ _ hr
        · exact ih r.2 a ha
  intro c as c' hrun
  have heq : collect p.run c.rest c = (as, c') := Option.some.inj hrun
  intro a ha
  apply hcollect c.rest c
  rw [heq]
  exact ha

end Yields

end Parser

end RegisterTransfer
