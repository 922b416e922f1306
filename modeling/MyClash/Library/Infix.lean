import Mathlib.Data.List.Basic

/-!
# Infix expressions with few parentheses

Every operator associates to the left. The printer puts an operand in parentheses when its
operator binds looser than the one above it, and on the right also when it binds as tight. The
parser reads by climbing the precedences. What is printed is read back as it was.
-/

namespace Infix

universe u v

variable {α : Type u} {o : Type v}

inductive Tree (α : Type u) (o : Type v) where
  | leaf (a : α)
  | node (op : o) (left right : Tree α o)

inductive Token (α : Type u) (o : Type v) where
  | atom (a : α)
  | op (op : o)
  | openParen
  | closeParen

variable (prec : o → ℕ)

/-- The tree's operator binds at least as tight as the bound. -/
@[grind =] def Tree.binds (bound : ℕ) : Tree α o → Bool
  | .leaf _ => true
  | .node op _ _ => decide (bound ≤ prec op)

def parens (tokens : List (Token α o)) : List (Token α o) :=
  .openParen :: tokens ++ [.closeParen]

@[grind =] def print : Tree α o → List (Token α o)
  | .leaf a => [.atom a]
  | .node op left right =>
    (if left.binds prec (prec op) then print left else parens (print left)) ++ .op op ::
      if right.binds prec (prec op + 1) then print right else parens (print right)

mutual

/-- An operand, and on it the operators that bind at least as tight as the bound. -/
def expr : ℕ → ℕ → List (Token α o) → Option (Tree α o × List (Token α o))
  | fuel + 1, bound, .atom a :: rest => climb fuel bound (.leaf a) rest
  | fuel + 1, bound, .openParen :: rest =>
    match expr fuel 0 rest with
    | some (inner, .closeParen :: rest) => climb fuel bound inner rest
    | _ => none
  | _, _, _ => none

@[grind =] def climb : ℕ → ℕ → Tree α o → List (Token α o) → Option (Tree α o × List (Token α o))
  | 0, _, _, _ => none
  | fuel + 1, bound, left, .op op :: rest =>
    if bound ≤ prec op then
      match expr fuel (prec op + 1) rest with
      | some (right, rest) => climb fuel bound (.node op left right) rest
      | none => none
    else some (left, .op op :: rest)
  | _ + 1, _, left, rest => some (left, rest)

end

/-- The whole of the tokens as one expression. -/
def parse (tokens : List (Token α o)) : Option (Tree α o) :=
  match expr prec (tokens.length + 1) 0 tokens with
  | some (tree, []) => some tree
  | _ => none

variable {prec}

/-- More fuel reads the same. -/
theorem more_fuel (fuel : ℕ) :
    (∀ bound tokens (result : Tree α o × List (Token α o)),
      expr prec fuel bound tokens = some result →
        expr prec (fuel + 1) bound tokens = some result) ∧
    ∀ bound left tokens (result : Tree α o × List (Token α o)),
      climb prec fuel bound left tokens = some result →
        climb prec (fuel + 1) bound left tokens = some result := by
  induction fuel with
  | zero =>
    constructor
    · intro bound tokens result h
      cases h
    · intro bound left tokens result h
      cases h
  | succ fuel ih =>
    obtain ⟨ihExpr, ihClimb⟩ := ih
    constructor
    · intro bound tokens result h
      match tokens, h with
      | .atom a :: rest, h => exact ihClimb bound (.leaf a) rest result h
      | .openParen :: rest, h =>
        rw [expr] at h ⊢
        cases hInner : expr prec fuel 0 rest with
        | none =>
          rw [hInner] at h
          cases h
        | some read =>
          rw [hInner] at h
          rw [ihExpr 0 rest read hInner]
          match read, h with
          | (inner, .closeParen :: rest), h => exact ihClimb bound inner rest result h
    · intro bound left tokens result h
      match tokens, h with
      | .op op :: rest, h =>
        rw [climb] at h ⊢
        split_ifs at h ⊢ with hBound
        · cases hRight : expr prec fuel (prec op + 1) rest with
          | none =>
            rw [hRight] at h
            cases h
          | some read =>
            rw [hRight] at h
            rw [ihExpr (prec op + 1) rest read hRight]
            exact ihClimb bound (.node op left read.1) read.2 result h
        · exact h
      | [], h => exact h
      | .atom _ :: _, h => exact h
      | .openParen :: _, h => exact h
      | .closeParen :: _, h => exact h

theorem expr_mono {fuel fuel' bound : ℕ} {tokens : List (Token α o)}
    {result : Tree α o × List (Token α o)} (hLe : fuel ≤ fuel')
    (h : expr prec fuel bound tokens = some result) :
    expr prec fuel' bound tokens = some result := by
  induction hLe with
  | refl => exact h
  | step _ ih => exact (more_fuel _).1 _ _ _ ih

theorem climb_mono {fuel fuel' bound : ℕ} {left : Tree α o} {tokens : List (Token α o)}
    {result : Tree α o × List (Token α o)} (hLe : fuel ≤ fuel')
    (h : climb prec fuel bound left tokens = some result) :
    climb prec fuel' bound left tokens = some result := by
  induction hLe with
  | refl => exact h
  | step _ ih => exact (more_fuel _).2 _ _ _ _ ih

/-- The operator that comes next binds looser than the bound. -/
def Stops (prec : o → ℕ) (bound : ℕ) (rest : List (Token α o)) : Prop :=
  ∀ op tail, rest = .op op :: tail → prec op < bound

theorem climb_stops {fuel bound : ℕ} {left : Tree α o} {rest : List (Token α o)}
    (h : Stops prec bound rest) : climb prec (fuel + 1) bound left rest = some (left, rest) := by
  match rest, h with
  | .op op :: tail, h => rw [climb, if_neg (Nat.not_le_of_lt (h op tail rfl))]
  | [], _ => rfl
  | .atom _ :: _, _ => rfl
  | .openParen :: _, _ => rfl
  | .closeParen :: _, _ => rfl

/-- A token that ends an expression stops every bound. -/
theorem stops_closeParen (bound : ℕ) (rest : List (Token α o)) :
    Stops prec bound (.closeParen :: rest) := nofun

theorem Stops.mono {bound bound' : ℕ} {rest : List (Token α o)} (h : Stops prec bound rest)
    (hLe : bound ≤ bound') : Stops prec bound' rest := fun op tail hRest =>
  Nat.lt_of_lt_of_le (h op tail hRest) hLe

theorem Tree.binds_mono {tree : Tree α o} {bound bound' : ℕ} (h : tree.binds prec bound')
    (hLe : bound ≤ bound') : tree.binds prec bound := by
  cases tree with
  | leaf => rfl
  | node op _ _ => exact decide_eq_true (Nat.le_trans hLe (of_decide_eq_true h))

theorem Tree.binds_zero (tree : Tree α o) : tree.binds prec 0 := by
  cases tree with
  | leaf => rfl
  | node op _ _ => exact decide_eq_true (Nat.zero_le (prec op))

/-- Nothing that comes next binds tighter than the tree's own operator. -/
def Follows (prec : o → ℕ) (tree : Tree α o) (rest : List (Token α o)) : Prop :=
  ∀ op left right, tree = .node op left right → Stops prec (prec op + 1) rest

/-- What is printed is found again in front of what follows it. -/
def Found (prec : o → ℕ) (tree : Tree α o) : Prop :=
  ∀ (fuel bound : ℕ) (rest : List (Token α o)) (result : Tree α o × List (Token α o)),
    tree.binds prec bound → Follows prec tree rest →
    climb prec fuel bound tree rest = some result →
    expr prec (fuel + (print prec tree).length) bound (print prec tree ++ rest) = some result

/-- An operand is found again, in parentheses or not. -/
theorem Found.operand {tree : Tree α o} (h : Found prec tree) {fuel bound outer : ℕ}
    {rest : List (Token α o)} {result : Tree α o × List (Token α o)} (hLe : bound ≤ outer)
    (hFollows : tree.binds prec outer → Follows prec tree rest)
    (hClimb : climb prec fuel bound tree rest = some result) :
    expr prec (fuel + (if tree.binds prec outer then print prec tree
        else parens (print prec tree)).length) bound
      ((if tree.binds prec outer then print prec tree else parens (print prec tree)) ++ rest) =
      some result := by
  split_ifs with hBinds
  · exact h fuel bound rest result (Tree.binds_mono hBinds hLe) (hFollows hBinds) hClimb
  · have hInner := h 1 0 (.closeParen :: rest) _ tree.binds_zero
      (fun op _ _ _ => stops_closeParen (prec op + 1) rest)
      (climb_stops (stops_closeParen 0 rest))
    have hTokens : parens (print prec tree) ++ rest =
        .openParen :: (print prec tree ++ .closeParen :: rest) := by
      simp [parens]
    have hLength : fuel + (parens (print prec tree)).length =
        fuel + (print prec tree).length + 1 + 1 := by
      simp only [parens, List.length_append, List.length_cons, List.length_nil]
      omega
    have hMore : 1 + (print prec tree).length ≤ fuel + (print prec tree).length + 1 := by omega
    rw [hLength, hTokens, expr, expr_mono hMore hInner]
    exact climb_mono (by omega) hClimb

theorem found (tree : Tree α o) : Found prec tree := by
  induction tree with
  | leaf a => exact fun fuel bound rest result _ _ h => h
  | node op left right ihLeft ihRight =>
    intro fuel bound rest result hBinds hFollows h
    have hBound : bound ≤ prec op := of_decide_eq_true hBinds
    have hStops := hFollows op left right rfl
    obtain ⟨fuel, rfl⟩ : ∃ n, fuel = n + 1 := by
      cases fuel with
      | zero => cases h
      | succ n => exact ⟨n, rfl⟩
    have hEnd : climb prec 1 (prec op + 1) right rest = some (right, rest) := climb_stops hStops
    have hRight := ihRight.operand (Nat.le_refl (prec op + 1)) (fun hRightBinds op' _ _ hNode => by
      subst hNode
      exact hStops.mono (Nat.le_trans (of_decide_eq_true hRightBinds) (Nat.le_succ _))) hEnd
    have hClimb : climb prec (fuel + 1 + (if right.binds prec (prec op + 1) then print prec right
        else parens (print prec right)).length + 1) bound left (.op op ::
          ((if right.binds prec (prec op + 1) then print prec right
            else parens (print prec right)) ++ rest)) = some result := by
      rw [climb, if_pos hBound, expr_mono (by omega) hRight]
      exact climb_mono (by omega) h
    have hLeft := ihLeft.operand hBound (fun hLeftBinds op' _ _ hNode op'' tail hRest => by
      subst hNode
      obtain rfl := (Token.op.inj (List.cons.inj hRest).1)
      exact Nat.lt_succ_of_le (of_decide_eq_true hLeftBinds)) hClimb
    rw [print, List.append_assoc, List.cons_append]
    refine expr_mono ?_ hLeft
    simp only [List.length_append, List.length_cons]
    omega

theorem parse_print (tree : Tree α o) : parse prec (print prec tree) = some tree := by
  have hStops : ∀ bound, Stops prec bound ([] : List (Token α o)) := nofun
  have hEnd : climb prec 1 0 tree [] = some (tree, []) := climb_stops (hStops 0)
  have hRead := found tree 1 0 [] _ tree.binds_zero (fun op _ _ _ => hStops _) hEnd
  rw [List.append_nil, Nat.add_comm] at hRead
  rw [parse, hRead]

end Infix
