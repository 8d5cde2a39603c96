import Mathlib.Algebra.BigOperators.Group.List.Basic
import Mathlib.Data.List.Perm.Basic
import ScxCohort.Lib.HashTable

/-!
This module contains tables that gather what the elements of a list say about their keys: what such a
table has at a key, and what its values add up to.
-/

namespace HashTable

variable {α κ ν : Type}

section Gather

variable [DecidableEq κ] (key : α → κ) (init : α → ν) (add : ν → α → ν)

end Gather

section Total

variable {M : Type} [AddCommMonoid M] {f f' : ν → M}

def total (f : ν → M) (t : HashTable κ ν) : M := (t.values.map f).sum

variable [DecidableEq κ]

end Total

end HashTable
