import Mathlib.Algebra.Order.Ring.Nat
import Mathlib.Order.MinMax
import MukhiDb.Foundation.Exec

/-!
Contract: a transactional store of pages as two page maps.

Owns: page maps, whose pages past their length are blank; the committed and the
working map; and the effect of reading, writing, allocating, beginning,
committing and rolling back on the two.

Does not own: caches, files, or how a store keeps its maps.
-/

namespace MukhiDb.Foundation

variable {π : Type} {blank : π}

/-- A page map with its length. -/
structure PageMap (π : Type) (blank : π) where
  page : Nat → π
  count : Nat
  past : ∀ index, count ≤ index → page index = blank

namespace PageMap

@[ext] theorem ext {left right : PageMap π blank} (pages : left.page = right.page)
    (counts : left.count = right.count) : left = right := by
  cases left
  cases right
  congr

/-- Set a page, extending the map over it. -/
def set (map : PageMap π blank) (index : Nat) (contents : π) : PageMap π blank where
  page := Function.update map.page index contents
  count := max map.count (index + 1)
  past := by
    intro other beyond
    have different : other ≠ index := by omega
    rw [Function.update_of_ne different]
    exact map.past other (by omega)

/-- Extend the map by one blank page. -/
def extend (map : PageMap π blank) : PageMap π blank where
  page := map.page
  count := map.count + 1
  past := fun other beyond => map.past other (by omega)

end PageMap

/-- The committed and the working pages. -/
structure TwoMap (π : Type) (blank : π) where
  committed : PageMap π blank
  working : PageMap π blank
  inTransaction : Bool

namespace TwoMap

/-- A store whose two maps agree. -/
def opened (map : PageMap π blank) : TwoMap π blank := ⟨map, map, false⟩

/-- Replace a working page by a function of its contents. -/
def modify (index : Nat) (change : π → π) (two : TwoMap π blank) : TwoMap π blank :=
  { two with working := two.working.set index (change (two.working.page index)) }

/-- Take the first page past the working length. -/
def allocate (two : TwoMap π blank) : TwoMap π blank :=
  { two with working := two.working.extend }

def begin (two : TwoMap π blank) : TwoMap π blank := { two with inTransaction := true }

def commit (two : TwoMap π blank) : TwoMap π blank := ⟨two.working, two.working, false⟩

def rollback (two : TwoMap π blank) : TwoMap π blank := ⟨two.committed, two.committed, false⟩

end TwoMap

end MukhiDb.Foundation
