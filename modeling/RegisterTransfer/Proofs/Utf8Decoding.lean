import Mathlib.Algebra.Order.Ring.Int
import RegisterTransfer.Text.Utf8
set_option autoImplicit false

/-!
# What UTF-8 decoding reads

`decode?` reads a character off the bytes that start with the character's own
(`decode?_utf8EncodeChar`), and off no others (`eq_of_decode?_eq_some`).  So every text falls into two parts at one place: a `Readable` part, the
bytes of characters other than U+FFFD, and an `Unreadable` rest, which is empty or starts with
U+FFFD or with no character at all.
-/

namespace RegisterTransfer.Utf8

/-! ## One character -/

theorem continuation?_eq_some_iff {b : UInt8} {bits : Nat} :
    continuation? b = some bits ↔ bits < 64 ∧ b = UInt8.ofNat (bits + 128) := by
  simp only [continuation?, UInt8.le_iff_toNat_le, UInt8.lt_iff_toNat_lt, UInt8.reduceToNat,
    Option.ite_none_right_eq_some, Option.some.injEq, ← UInt8.toNat_inj, UInt8.toNat_ofNat']
  omega

theorem toNat_ofNat {n : Nat} (h : n.isValidChar) : (Char.ofNat n).toNat = n := by
  rw [Char.ofNat, dif_pos h]
  rfl

theorem scalar?_eq_some_iff {least value : Nat} {c : Char} :
    scalar? least value = some c ↔ least ≤ value ∧ c.toNat = value := by
  simp only [scalar?, Option.ite_none_right_eq_some, Option.some.injEq]
  constructor
  · rintro ⟨⟨hleast, hvalid⟩, rfl⟩
    exact ⟨hleast, toNat_ofNat hvalid⟩
  · rintro ⟨hleast, rfl⟩
    exact ⟨⟨hleast, c.valid⟩, c.ofNat_toNat⟩

/-- The continuation bytes of the last `n` groups of six bits of a number. -/
def continuations : Nat → Nat → List UInt8
  | 0, _ => []
  | n + 1, value => UInt8.ofNat (value / 64 ^ n % 64 + 128) :: continuations n value

/-- Continuation bytes are read as the groups of bits that they stand for, in one way. -/
theorem continue?_eq_some_iff {n before value : Nat} {x y : List UInt8} :
    continue? n before x = some (value, y) ↔
      before = value / 64 ^ n ∧ x = continuations n value ++ y := by
  induction n generalizing before x with
  | zero => simp [continue?, continuations, eq_comm]
  | succ n ih =>
    cases x with
    | nil => simp [continue?, continuations]
    | cons b x =>
      simp only [continue?, Option.bind_eq_bind, Option.bind_eq_some_iff,
        continuation?_eq_some_iff, ih, continuations, List.cons_append, List.cons.injEq,
        Nat.pow_succ, ← Nat.div_div_eq_div_mul]
      constructor
      · rintro ⟨bits, ⟨hbits, rfl⟩, hvalue, rfl⟩
        rw [← hvalue]
        refine ⟨by omega, ?_, rfl⟩
        congr 2
        omega
      · rintro ⟨rfl, rfl, rfl⟩
        exact ⟨value / 64 ^ n % 64, ⟨by omega, rfl⟩, by omega, rfl⟩

section Forms

variable {c : Char}

theorem utf8EncodeChar_one (h : c.toNat < 0x80) :
    String.utf8EncodeChar c = [UInt8.ofNat c.toNat] := by
  simp only [String.utf8EncodeChar, Char.toNat_val]
  rw [if_pos (by omega)]

theorem utf8EncodeChar_two (h : 0x80 ≤ c.toNat) (hbits : c.toNat / 64 ^ 1 < 0x20) :
    String.utf8EncodeChar c =
      UInt8.ofNat (c.toNat / 64 ^ 1 + 0xC0) :: continuations 1 c.toNat := by
  simp only [String.utf8EncodeChar, Char.toNat_val, continuations, Nat.reducePow,
    Nat.div_one] at hbits ⊢
  rw [if_neg (by omega), if_pos (by omega), Nat.mod_eq_of_lt hbits]

theorem utf8EncodeChar_three (h : 0x800 ≤ c.toNat) (hbits : c.toNat / 64 ^ 2 < 0x10) :
    String.utf8EncodeChar c =
      UInt8.ofNat (c.toNat / 64 ^ 2 + 0xE0) :: continuations 2 c.toNat := by
  simp only [String.utf8EncodeChar, Char.toNat_val, continuations, Nat.reducePow,
    Nat.div_one] at hbits ⊢
  rw [if_neg (by omega), if_neg (by omega), if_pos (by omega), Nat.mod_eq_of_lt hbits]

theorem utf8EncodeChar_four (h : 0x10000 ≤ c.toNat) (hbits : c.toNat / 64 ^ 3 < 0x08) :
    String.utf8EncodeChar c =
      UInt8.ofNat (c.toNat / 64 ^ 3 + 0xF0) :: continuations 3 c.toNat := by
  simp only [String.utf8EncodeChar, Char.toNat_val, continuations, Nat.reducePow,
    Nat.div_one] at hbits ⊢
  rw [if_neg (by omega), if_neg (by omega), if_neg (by omega), Nat.mod_eq_of_lt hbits]

end Forms

/-- The bits of a first byte and of `n` continuation bytes make up a character of at least `least`
if they are its first bits and its last `n` groups of six. -/
theorem continue?_scalar?_eq_some_iff {n before least : Nat} {c : Char} {x y : List UInt8} :
    (do let (value, rest) ← continue? n before x
        return (← scalar? least value, rest)) = some (c, y) ↔
      least ≤ c.toNat ∧ before = c.toNat / 64 ^ n ∧ x = continuations n c.toNat ++ y := by
  simp only [Option.bind_eq_bind, Option.bind_eq_some_iff, Option.pure_def, Option.some.injEq,
    Prod.mk.injEq, Prod.exists, continue?_eq_some_iff, scalar?_eq_some_iff]
  constructor
  · rintro ⟨value, _, ⟨hbefore, hx⟩, _, ⟨hleast, rfl⟩, rfl, rfl⟩
    exact ⟨hleast, hbefore, hx⟩
  · rintro ⟨hleast, hbefore, hx⟩
    exact ⟨c.toNat, y, ⟨hbefore, hx⟩, c, ⟨hleast, rfl⟩, rfl, rfl⟩

/-- A character is read off the front of the bytes that start with its own. -/
theorem decode?_utf8EncodeChar (c : Char) (y : List UInt8) :
    decode? (String.utf8EncodeChar c ++ y) = some (c, y) := by
  have hvalid : c.toNat.isValidChar := c.valid
  unfold Nat.isValidChar at hvalid
  have hsize : c.toNat < 0x80 ∨ (0x80 ≤ c.toNat ∧ c.toNat / 64 ^ 1 < 0x20) ∨
      (0x800 ≤ c.toNat ∧ c.toNat / 64 ^ 2 < 0x10) ∨
      (0x10000 ≤ c.toNat ∧ c.toNat / 64 ^ 3 < 0x08) := by omega
  rcases hsize with hc | ⟨hleast, hbits⟩ | ⟨hleast, hbits⟩ | ⟨hleast, hbits⟩
  · rw [utf8EncodeChar_one hc, List.cons_append, decode?]
    simp only [UInt8.lt_iff_toNat_lt, UInt8.reduceToNat, UInt8.toNat_ofNat']
    rw [if_pos (by omega), Nat.mod_eq_of_lt (by omega), c.ofNat_toNat]
    rfl
  · rw [utf8EncodeChar_two hleast hbits, List.cons_append, decode?]
    simp only [UInt8.le_iff_toNat_le, UInt8.lt_iff_toNat_lt, UInt8.reduceToNat,
      UInt8.toNat_ofNat']
    rw [if_neg (by omega), if_pos (by omega), continue?_scalar?_eq_some_iff]
    exact ⟨hleast, by omega, rfl⟩
  · rw [utf8EncodeChar_three hleast hbits, List.cons_append, decode?]
    simp only [UInt8.le_iff_toNat_le, UInt8.lt_iff_toNat_lt, UInt8.reduceToNat,
      UInt8.toNat_ofNat']
    rw [if_neg (by omega), if_neg (by omega), if_pos (by omega), continue?_scalar?_eq_some_iff]
    exact ⟨hleast, by omega, rfl⟩
  · rw [utf8EncodeChar_four hleast hbits, List.cons_append, decode?]
    simp only [UInt8.le_iff_toNat_le, UInt8.lt_iff_toNat_lt, UInt8.reduceToNat,
      UInt8.toNat_ofNat']
    rw [if_neg (by omega), if_neg (by omega), if_neg (by omega), if_pos (by omega),
      continue?_scalar?_eq_some_iff]
    exact ⟨hleast, by omega, rfl⟩

/-- No other bytes are read as a character than its own. -/
theorem eq_of_decode?_eq_some {c : Char} {x y : List UInt8} (h : decode? x = some (c, y)) :
    x = String.utf8EncodeChar c ++ y := by
  cases x with
  | nil => cases h
  | cons b x =>
    have hfirst : ∀ n, n = b.toNat → UInt8.ofNat n = b := by
      rintro _ rfl
      exact UInt8.ofNat_toNat
    rw [decode?] at h
    simp only [UInt8.le_iff_toNat_le, UInt8.lt_iff_toNat_lt, UInt8.reduceToNat] at h
    split at h
    case isTrue hb =>
      cases h
      have hvalue : (Char.ofNat b.toNat).toNat = b.toNat := toNat_ofNat (.inl (by omega))
      rw [utf8EncodeChar_one (by omega), hvalue, hfirst _ rfl]
      rfl
    split at h
    case isTrue hb =>
      obtain ⟨hleast, hbits, rfl⟩ := continue?_scalar?_eq_some_iff.mp h
      rw [utf8EncodeChar_two hleast (by omega), hfirst _ (by omega)]
      rfl
    split at h
    case isTrue hb =>
      obtain ⟨hleast, hbits, rfl⟩ := continue?_scalar?_eq_some_iff.mp h
      rw [utf8EncodeChar_three hleast (by omega), hfirst _ (by omega)]
      rfl
    split at h
    case isTrue hb =>
      obtain ⟨hleast, hbits, rfl⟩ := continue?_scalar?_eq_some_iff.mp h
      rw [utf8EncodeChar_four hleast (by omega), hfirst _ (by omega)]
      rfl
    case isFalse => cases h

/-- No character's bytes start those of another. -/
theorem utf8EncodeChar_append_inj {c d : Char} {x y : List UInt8}
    (h : String.utf8EncodeChar c ++ x = String.utf8EncodeChar d ++ y) : c = d ∧ x = y := by
  have hdecode := decode?_utf8EncodeChar c x
  rw [h, decode?_utf8EncodeChar d y] at hdecode
  cases hdecode
  exact ⟨rfl, rfl⟩

theorem utf8EncodeChar_ne_nil (c : Char) : String.utf8EncodeChar c ≠ [] := by
  intro h
  have hdecode := decode?_utf8EncodeChar c []
  rw [h] at hdecode
  cases hdecode

/-! ## Readable texts -/

/-- The bytes of characters other than U+FFFD. -/
inductive Readable : List UInt8 → Prop
  | nil : Readable []
  | char {c : Char} {y : List UInt8} (hc : c ≠ replacement) (hy : Readable y) :
      Readable (String.utf8EncodeChar c ++ y)

/-- Bytes that start with no character, or with U+FFFD. -/
def Unreadable (x : List UInt8) : Prop := ∀ c y, x = String.utf8EncodeChar c ++ y → c = replacement

theorem unreadable_nil : Unreadable [] := by
  intro c y h
  exact absurd (List.append_eq_nil_iff.mp h.symm).1 (utf8EncodeChar_ne_nil c)

theorem Readable.append {x y : List UInt8} (hx : Readable x) (hy : Readable y) :
    Readable (x ++ y) := by
  induction hx with
  | nil => exact hy
  | char hc _ ih =>
    rw [List.append_assoc]
    exact .char hc ih

theorem Readable.of_char {c : Char} {y : List UInt8}
    (h : Readable (String.utf8EncodeChar c ++ y)) : c ≠ replacement ∧ Readable y := by
  generalize hx : String.utf8EncodeChar c ++ y = x at h
  cases h with
  | nil => exact absurd (List.append_eq_nil_iff.mp hx).1 (utf8EncodeChar_ne_nil c)
  | char hd hy' =>
    obtain ⟨rfl, rfl⟩ := utf8EncodeChar_append_inj hx
    exact ⟨hd, hy'⟩

theorem Readable.of_append {x y : List UInt8} (hx : Readable x) (h : Readable (x ++ y)) :
    Readable y := by
  induction hx with
  | nil => exact h
  | char _ _ ih =>
    rw [List.append_assoc] at h
    exact ih h.of_char.2

theorem Readable.eq_nil {x : List UInt8} (h : Readable x) (hx : Unreadable x) : x = [] := by
  cases h with
  | nil => rfl
  | char hc _ => exact absurd (hx _ _ rfl) hc

/-- Every text starts with a readable part that ends at a place where nothing can be read. -/
theorem exists_readable_append (text : List UInt8) :
    ∃ read rest, text = read ++ rest ∧ Readable read ∧ Unreadable rest := by
  induction hn : text.length using Nat.strongRecOn generalizing text with
  | ind n ih =>
    by_cases htext : Unreadable text
    · exact ⟨[], text, rfl, .nil, htext⟩
    · simp only [Unreadable, not_forall] at htext
      obtain ⟨c, y, rfl, hc⟩ := htext
      have hpos := List.length_pos_iff.mpr (utf8EncodeChar_ne_nil c)
      rw [List.length_append] at hn
      obtain ⟨read, rest, rfl, hread, hrest⟩ := ih y.length (by omega) y rfl
      exact ⟨_, rest, (List.append_assoc _ _ _).symm, .char hc hread, hrest⟩

/-- There is one such place. -/
theorem Readable.split_unique {read read' rest rest' : List UInt8} (hread : Readable read)
    (hread' : Readable read') (hrest : Unreadable rest) (hrest' : Unreadable rest')
    (h : read ++ rest = read' ++ rest') : read = read' ∧ rest = rest' := by
  induction hread generalizing read' with
  | nil =>
    cases hread' with
    | nil => exact ⟨rfl, h⟩
    | char hc _ => exact absurd (hrest _ _ (by rw [← List.append_assoc]; exact h)) hc
  | char hc _ ih =>
    cases hread' with
    | nil => exact absurd (hrest' _ _ (by rw [← List.append_assoc]; exact h.symm)) hc
    | char hd hy' =>
      rw [List.append_assoc, List.append_assoc] at h
      obtain ⟨rfl, htail⟩ := utf8EncodeChar_append_inj h
      obtain ⟨rfl, hrests⟩ := ih hy' htail
      exact ⟨rfl, hrests⟩

/-! ## ASCII bytes -/

theorem utf8EncodeChar_ofNat {b : UInt8} (hb : b.toNat < 0x80) :
    String.utf8EncodeChar (Char.ofNat b.toNat) = [b] ∧ Char.ofNat b.toNat ≠ replacement := by
  have hdecode : decode? [b] = some (Char.ofNat b.toNat, []) := by
    rw [decode?, if_pos (by simpa [UInt8.lt_iff_toNat_lt] using hb)]
  have hbytes := eq_of_decode?_eq_some hdecode
  rw [List.append_nil] at hbytes
  refine ⟨hbytes.symm, fun h => ?_⟩
  rw [h] at hbytes
  have hlength := congrArg List.length hbytes
  cases hlength

theorem readable_cons_iff {b : UInt8} {y : List UInt8} (hb : b.toNat < 0x80) :
    Readable (b :: y) ↔ Readable y := by
  obtain ⟨hbytes, hne⟩ := utf8EncodeChar_ofNat hb
  have hcons : b :: y = String.utf8EncodeChar (Char.ofNat b.toNat) ++ y := by rw [hbytes]; rfl
  rw [hcons]
  exact ⟨fun h => h.of_char.2, .char hne⟩

theorem Unreadable.not_ascii {b : UInt8} {y : List UInt8} (h : Unreadable (b :: y)) :
    ¬ b.toNat < 0x80 := by
  intro hb
  obtain ⟨hbytes, hne⟩ := utf8EncodeChar_ofNat hb
  exact hne (h _ y (by rw [hbytes]; rfl))

end RegisterTransfer.Utf8
