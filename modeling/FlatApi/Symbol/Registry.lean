import FlatApi.Symbol

/-!
# The symbols of one artifact

A registry holds the symbols that were issued, in their order, and issues each at most once.  A
name that is taken gets a number behind it, the least that makes it free.  A name may be issued
together with longer names that end in it; then all of them have to be free.
-/

namespace FlatApi.Symbol

/-- The symbols issued so far, all different, the first one first. -/
structure Registry where
  names : List String := []
  nodup : names.Nodup := by first | exact List.nodup_nil | decide

namespace Registry

def contains (r : Registry) (name : String) : Bool := r.names.contains name

def size (r : Registry) : Nat := r.names.length

def isEmpty (r : Registry) : Bool := r.names.isEmpty

/-- The names that a name is issued with: itself, and itself behind each of the heads. -/
def claims (heads : List String) (name : String) : List String :=
  name :: heads.map (· ++ name)

def isFree (r : Registry) (heads : List String) (name : String) : Bool :=
  (claims heads name).all fun n => !r.contains n

/-- The names that are tried for a base: the base, and the base with `0`, `1`, … behind it. -/
def candidate (base : String) : Nat → String
  | 0 => base
  | k + 1 => base ++ toString k

/-- The first free candidate from number `i` on; after `tries` failures, whatever comes next. -/
def firstFree (r : Registry) (heads : List String) (base : String) (i : Nat) : Nat → String
  | 0 => candidate base i
  | tries + 1 =>
    if r.isFree heads (candidate base i) then candidate base i
    else r.firstFree heads base (i + 1) tries

theorem contains_iff {r : Registry} {name : String} : r.contains name = true ↔ name ∈ r.names :=
  List.contains_iff_mem

/-- A new name at the end is one more. -/
theorem nodup_concat {r : Registry} {name : String} (h : ¬ r.contains name = true) :
    (r.names ++ [name]).Nodup := by
  refine List.nodup_append.mpr ⟨r.nodup, List.pairwise_singleton _ name, ?_⟩
  intro a ha b hb hab
  rw [List.mem_singleton.mp hb] at hab
  rw [hab] at ha
  exact h (contains_iff.mpr ha)

/-- A name that is there already keeps its place. -/
def add (r : Registry) (name : String) : Registry :=
  if h : r.contains name then r
  else { names := r.names ++ [name], nodup := nodup_concat h }

def addAll (r : Registry) (names : List String) : Registry := names.foldl add r

/-- The name that is issued for a base with these heads.  Each name that was issued makes at most
one candidate fail for each way of claiming it, so a free one comes within the bound. -/
def choose (r : Registry) (base : String) (heads : List String) : String :=
  r.firstFree heads (sanitize base) 0 (r.size * (1 + heads.length))

/-- Issues a name, and with it the longer names. -/
def reserveWith (r : Registry) (base : String) (heads : List String) : String × Registry :=
  let name := r.choose base heads
  (name, r.addAll (claims heads name))

/-- Issues a name. -/
def reserve (r : Registry) (base : String) : String × Registry := r.reserveWith base []

end Registry

end FlatApi.Symbol
