/-
  QueryLoom/Sql/Agreement.lean
  ============================
  **Equality of SQL trees with constants taken by value.**  Two trees agree when they have
  the same shape and their constants agree, so `1.0` and `1.00` are one key and a tree
  with a number that has no value agrees with nothing.
-/
import QueryLoom.Sql.Basic

namespace QueryLoom.Sql

mutual

/-- Equality of expressions. -/
def Expr.agrees : Expr → Expr → Bool
  | .column s n, .column s' n' => s == s' && n == n'
  | .allColumns s, .allColumns s' => s == s'
  | .literal v, .literal v' => v.agrees v'
  | .parameter p, .parameter p' => p == p'
  | .keyword w, .keyword w' => w == w'
  | .function n args, .function n' args' => n == n' && agreeList args args'
  | .trim s c t, .trim s' c' t' => s == s' && agreeOption c c' && t.agrees t'
  | .substring t s l, .substring t' s' l' => t.agrees t' && s.agrees s' && agreeOption l l'
  | .extract p e, .extract p' e' => p == p' && e.agrees e'
  | .cast e t, .cast e' t' => e.agrees e' && t == t'
  | .position n h, .position n' h' => n.agrees n' && h.agrees h'
  | .dateAdd a p e, .dateAdd a' p' e' => a.agrees a' && p == p' && e.agrees e'
  | .atTimeZone e z, .atTimeZone e' z' => e.agrees e' && z == z'
  | .binary l o r, .binary l' o' r' => l.agrees l' && o == o' && r.agrees r'
  | .unary o e, .unary o' e' => o == o' && e.agrees e'
  | .isNull e n, .isNull e' n' => e.agrees e' && n == n'
  | .case ws e, .case ws' e' => agreeWhens ws ws' && agreeOption e e'
  | .existsRow s, .existsRow s' => s.agrees s'
  | _, _ => false

/-- Equality of expressions that may be missing. -/
def agreeOption : Option Expr → Option Expr → Bool
  | none, none => true
  | some e, some e' => e.agrees e'
  | _, _ => false

/-- Equality of lists of expressions. -/
def agreeList : List Expr → List Expr → Bool
  | [], [] => true
  | e :: es, e' :: es' => e.agrees e' && agreeList es es'
  | _, _ => false

/-- Equality of the branches of two CASEs. -/
def agreeWhens : List When → List When → Bool
  | [], [] => true
  | ⟨c, r⟩ :: ws, ⟨c', r'⟩ :: ws' => c.agrees c' && r.agrees r' && agreeWhens ws ws'
  | _, _ => false

/-- Equality of statements. -/
def Select.agrees : Select → Select → Bool
  | ⟨cs, f, ps, ks, w⟩, ⟨cs', f', ps', ks', w'⟩ =>
    agreeColumns cs cs' && f.agrees f' && agreeList ps ps' && agreeKeys ks ks'
      && agreeWindow w w'

/-- Equality of selected columns. -/
def agreeColumns : List Column → List Column → Bool
  | [], [] => true
  | ⟨e, a⟩ :: cs, ⟨e', a'⟩ :: cs' => e.agrees e' && a == a' && agreeColumns cs cs'
  | _, _ => false

/-- Equality of origins. -/
def Origin.agrees : Origin → Origin → Bool
  | .table n a, .table n' a' => n == n' && a == a'
  | .derived s a, .derived s' a' => s.agrees s' && a == a'
  | .singleRow, .singleRow => true
  | _, _ => false

/-- Equality of orderings. -/
def agreeKeys : List OrderKey → List OrderKey → Bool
  | [], [] => true
  | ⟨e, d⟩ :: ks, ⟨e', d'⟩ :: ks' => e.agrees e' && d == d' && agreeKeys ks ks'
  | _, _ => false

/-- Equality of windows. -/
def agreeWindow : Option Window → Option Window → Bool
  | none, none => true
  | some ⟨l, u⟩, some ⟨l', u'⟩ => l.agrees l' && agreeOption u u'
  | _, _ => false

end

end QueryLoom.Sql
