import SqlFront.Statement.Expression
import SqlFront.Statement.Table

/-!
# Conditions on sharding columns

Conditions stand in groups. All conditions of a group hold together, and one group has to hold.
-/

set_option autoImplicit false

namespace SqlFront

inductive ConditionOperator
  | equal | oneOf | between
deriving DecidableEq

structure Condition where
  column : Column
  operator : ConditionOperator
  values : List Expression
deriving DecidableEq

structure ConditionGroup where
  conditions : List Condition
deriving DecidableEq

structure Conditions where
  groups : List ConditionGroup
deriving DecidableEq

namespace Condition

def same (a b : Condition) : Bool :=
  a.column == b.column && a.operator == b.operator &&
    a.values.isEqv b.values Expression.sameExpression

end Condition

namespace Conditions

def empty : Conditions := ⟨[]⟩

def add (cs : Conditions) (c : Condition) : Conditions :=
  match cs.groups with
  | [] => ⟨[⟨[c]⟩]⟩
  | g :: gs => ⟨⟨g.conditions ++ [c]⟩ :: gs⟩

def push (cs : Conditions) (g : ConditionGroup) : Conditions := ⟨cs.groups ++ [g]⟩

def merge (cs other : Conditions) : Conditions := ⟨cs.groups ++ other.groups⟩

def toList (cs : Conditions) : List Condition := cs.groups.flatMap ConditionGroup.conditions

def isEmpty (cs : Conditions) : Bool := cs.groups.all (fun g => g.conditions.isEmpty)

def same (a b : Conditions) : Bool :=
  a.groups.isEqv b.groups (fun g h => g.conditions.isEqv h.conditions Condition.same)

end Conditions

end SqlFront
