import Mathlib.Data.List.Basic

/-!
# Pieces that tile a buffer

A piece of a buffer is where it starts and how long it is. A list of
pieces tiles the cells from `p` up to `q` if each piece starts where the
last one ended and none is empty: so the pieces are disjoint, in order,
and their contents, one after the other, are the contents of those cells.
-/

namespace MiscTools

universe u

structure Piece where
  base : Nat
  len : Nat
deriving DecidableEq

/-- The cells of `buf` in a piece. -/
def Piece.slice {α : Type u} (v : Piece) (buf : List α) : List α := (buf.drop v.base).take v.len

/-- The cells in all the pieces. -/
def Piece.total : List Piece → Nat
  | [] => 0
  | v :: vs => v.len + total vs

inductive Tiles : Nat → List Piece → Nat → Prop
  | nil (p : Nat) : Tiles p [] p
  | cons {p n q : Nat} {vs : List Piece} (hlen : 0 < n) (hrest : Tiles (p + n) vs q) :
      Tiles p ({ base := p, len := n } :: vs) q

namespace Tiles

variable {α : Type u} {p q : Nat} {vs : List Piece}

theorem total (h : Tiles p vs q) : p + Piece.total vs = q := by
  induction h with
  | nil p => rfl
  | cons hlen hrest ih => rw [← ih, Piece.total, Nat.add_assoc]

/-- The contents of the pieces are the contents of what they tile. -/
theorem slices (h : Tiles p vs q) (buf : List α) :
    vs.flatMap (Piece.slice · buf) = (buf.drop p).take (q - p) := by
  induction h with
  | nil p => rw [Nat.sub_self, List.take_zero, List.flatMap_nil]
  | @cons p n q vs hlen hrest ih =>
      have hend := hrest.total
      have hsplit : q - p = n + (q - (p + n)) := by omega
      rw [List.flatMap_cons, ih, hsplit, List.take_add, List.drop_drop]
      rfl

end Tiles

end MiscTools
