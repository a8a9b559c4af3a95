import RegisterTransfer.Program
set_option autoImplicit false

/-!
# Converted calls

The points that hold a call in one program and a tail call in another, by function.
-/

namespace RegisterTransfer

/-- The converted points of functions, in the order of their names; functions without any are
left out. -/
structure Converted where
  sites : List (String × List Point)
  deriving DecidableEq, Repr, Inhabited

namespace Converted

/-- The points that hold a call in the code `c` and a tail call in the code `d`. -/
def points (c d : Code) : List Point :=
  c.points.filter fun pc =>
    match c.at? pc, d.at? pc with
    | some (.call ..), some (.tailcall ..) => true
    | _, _ => false

/-- The calls of `p` that are tail calls in `q`. -/
def between (p q : Program) : Converted :=
  ⟨p.functions.entries.filterMap fun (name, f) =>
    match f, q.function? name with
    | some f, some g =>
      match points f.code g.code with
      | [] => none
      | pcs => some (name, pcs)
    | _, _ => none⟩

/-- The number of converted calls. -/
def count (r : Converted) : Nat := (r.sites.flatMap fun (_, pcs) => pcs).length

/-- The converted calls as names with points, separated by blanks. -/
def text (r : Converted) : String :=
  " ".intercalate (r.sites.flatMap fun (name, pcs) =>
    pcs.map fun pc => name ++ ":" ++ toString pc.toNat)

end Converted

end RegisterTransfer
