/-
  Elogind.Lib.Forest

  Sequences of values that are either plain or hold a sequence of their own,
  and the events by which a program goes through them: one for each plain value,
  and one where a nested sequence starts and one where it ends.
-/

namespace Elogind.Lib

variable {α β γ σ : Type}

/-- A sequence of leaves and of nodes that have a sequence of members. -/
inductive Forest (α β : Type) where
  | nil
  | leaf (a : α) (rest : Forest α β)
  | node (b : β) (members rest : Forest α β)
  deriving DecidableEq, Repr

namespace Forest

/-- The first value of a sequence alone. -/
def first : Forest α β → Forest α β
  | .nil => .nil
  | .leaf a _ => .leaf a .nil
  | .node b members _ => .node b members .nil

/-- What follows the first value of a sequence. -/
def rest : Forest α β → Forest α β
  | .nil => .nil
  | .leaf _ rest => rest
  | .node _ _ rest => rest

end Forest

end Elogind.Lib
