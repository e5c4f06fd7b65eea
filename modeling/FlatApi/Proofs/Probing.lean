import FlatApi.Proofs.Registry

/-!
# The search for a free name ends

A search tries the candidates of a base one behind the other until one is free.  It numbers them
with a counter of 32 bits (`Probe`), and to raise the counter beyond that is an error, so it has
no step there (`Registry.Stops`).

* The search rejects no more candidates than there are ways in which the names held can block
  them (`exists_endsAt`): each name held blocks at most one candidate for each way of claiming it.
* The counter is the number of candidates that were rejected (`Probe.At.advance`).  So a search
  ends before the counter does if there are fewer ways than the counter has values
  (`probing_ends`).
-/

namespace FlatApi.Symbol

/-- Where a search stands: the name that is tried, and the number that the next one gets. -/
structure Probe where
  name : String
  next : UInt32
  deriving DecidableEq

namespace Probe

/-- The base itself is tried first, without a number. -/
def first (base : String) : Probe := { name := sanitize base, next := 0 }

def advance (base : String) (p : Probe) : Probe :=
  { name := sanitize base ++ toString p.next.toNat, next := p.next + 1 }

/-- The candidate with this place is tried, and the counter tells the place. -/
structure At (base : String) (i : Nat) (p : Probe) : Prop where
  name_eq : p.name = Registry.candidate (sanitize base) i
  toNat_next : p.next.toNat = i

namespace At

variable {base : String} {i : Nat} {p : Probe}

theorem first (base : String) : At base 0 (.first base) := ⟨rfl, rfl⟩

/-- As long as the counter does not wrap, it keeps telling the place. -/
theorem advance (h : At base i p) (hi : i + 1 < UInt32.size) :
    At base (i + 1) (p.advance base) := by
  have hone : (1 : UInt32).toNat = 1 := rfl
  constructor
  · show sanitize base ++ toString p.next.toNat = sanitize base ++ toString i
    rw [h.toNat_next]
  · show (p.next + 1).toNat = i + 1
    rw [UInt32.toNat_add, h.toNat_next, hone]
    exact Nat.mod_eq_of_lt hi

end At

end Probe

namespace Registry

/-- A search from one probe to another rejects `k` names on its way and finds the last one free. -/
inductive Stops (r : Registry) (heads : List String) (base : String) :
    Probe → Nat → Probe → Prop where
  | free {p : Probe} (h : r.isFree heads p.name = true) : Stops r heads base p 0 p
  | rejected {p q : Probe} {k : Nat} (h : r.isFree heads p.name = false)
      (hcount : p.next.toNat + 1 < UInt32.size) (hrest : Stops r heads base (p.advance base) k q) :
      Stops r heads base p (k + 1) q

/-- The answer is the candidate with the place `k`, which is free, and those before it are not. -/
structure EndsAt (r : Registry) (heads : List String) (base : String) (k : Nat)
    (answer : String) : Prop where
  answer_eq : answer = candidate (sanitize base) k
  free : r.isFree heads answer = true
  rejected : ∀ j < k, r.isFree heads (candidate (sanitize base) j) = false

section Search

variable {r : Registry} {heads : List String} {base : String} {k : Nat} {answer : String}

/-- Each request is answered by its search, and the names held bound how long that takes. -/
theorem exists_endsAt (r : Registry) (base : String) (heads : List String) :
    ∃ k ≤ r.size * (1 + heads.length), r.EndsAt heads base k (r.reserveWith base heads).1 := by
  obtain ⟨k, hk, heq, hfree, hleast⟩ := choose_spec r base heads
  refine ⟨k, hk, heq, ?_, fun j hj => ?_⟩
  · show r.isFree heads (r.choose base heads) = true
    rw [heq]
    exact isFree_iff.mpr hfree
  · rw [← Bool.not_eq_true, isFree_iff]
    exact hleast j hj

/-- From any place on its way, the search goes on to the answer. -/
theorem EndsAt.stops (h : r.EndsAt heads base k answer) (hk : k < UInt32.size) (left : Nat) :
    ∀ {i : Nat} {p : Probe}, i + left = k → p.At base i →
      ∃ q, r.Stops heads base p left q ∧ q.name = answer ∧ q.next.toNat = k := by
  -- the place rises as the number of names left falls
  induction left with
  | zero =>
    intro i p hi hp
    have hname : p.name = answer := by rw [hp.name_eq, h.answer_eq, ← hi, Nat.add_zero]
    refine ⟨p, .free ?_, hname, by rw [hp.toNat_next, ← hi, Nat.add_zero]⟩
    rw [hname]
    exact h.free
  | succ left ih =>
    intro i p hi hp
    obtain ⟨q, hq, hname, hnext⟩ := ih (i := i + 1) (by omega) (hp.advance (by omega))
    refine ⟨q, .rejected ?_ ?_ hq, hname, hnext⟩
    · rw [hp.name_eq]
      exact h.rejected i (by omega)
    · rw [hp.toNat_next]
      omega

end Search

/-- **The search for a free name ends** for every base and all heads.  Among `n` names held it
rejects at most `n` candidates, or `n` for each way of claiming a name if there are heads; while
these are fewer than the counter has values, the counter tells how many were rejected. -/
theorem probing_ends (r : Registry) (base : String) (heads : List String) :
    (∃ k ≤ r.size, r.EndsAt [] base k (r.reserve base).1 ∧
      (r.size < 2 ^ 32 → ∃ q, r.Stops [] base (.first base) k q ∧
        q.name = (r.reserve base).1 ∧ q.next.toNat = k)) ∧
    ∃ k ≤ r.size * (1 + heads.length), r.EndsAt heads base k (r.reserveWith base heads).1 ∧
      (r.size * (1 + heads.length) < 2 ^ 32 → ∃ q, r.Stops heads base (.first base) k q ∧
        q.name = (r.reserveWith base heads).1 ∧ q.next.toNat = k) := by
  have hstops : ∀ hs : List String, ∃ k ≤ r.size * (1 + hs.length),
      r.EndsAt hs base k (r.reserveWith base hs).1 ∧
        (r.size * (1 + hs.length) < 2 ^ 32 → ∃ q, r.Stops hs base (.first base) k q ∧
          q.name = (r.reserveWith base hs).1 ∧ q.next.toNat = k) := by
    intro hs
    obtain ⟨k, hk, hends⟩ := exists_endsAt r base hs
    refine ⟨k, hk, hends, fun hsize => ?_⟩
    exact hends.stops (Nat.lt_of_le_of_lt hk hsize) k (Nat.zero_add k) (.first base)
  refine ⟨?_, hstops heads⟩
  have hplain := hstops []
  rwa [List.length_nil, Nat.add_zero, Nat.mul_one] at hplain

/-- Each of three names held blocks another candidate, and the fourth one is free. -/
theorem probing_ends_Add :
    let r : Registry := { names := ["Add", "set_Add0", "get_Add1"] }
    let heads := ["get_", "set_"]
    r.size * (1 + heads.length) = 9 ∧ (9 : Nat) < 2 ^ 32 ∧
      r.EndsAt heads "Add" 3 "Add2" ∧
      r.Stops heads "Add" { name := "Add", next := 0 } 3 { name := "Add2", next := 3 } := by
  intro r heads
  have hanswer : (r.reserveWith "Add" heads).1 = "Add2" := by decide +kernel
  obtain ⟨-, k, -, hends, hstops⟩ := probing_ends r "Add" heads
  obtain ⟨q, hq, hname, hnext⟩ := hstops (by decide)
  rw [hanswer] at hends hname
  have hplace : candidate (sanitize "Add") k = candidate (sanitize "Add") 3 := by
    rw [← hends.answer_eq]
    decide
  have hk : k = 3 := candidate_injective _ hplace
  subst hk
  have hprobe : q = { name := "Add2", next := 3 } := by
    obtain ⟨name, next⟩ := q
    rw [Probe.mk.injEq]
    exact ⟨hname, UInt32.toNat_inj.mp hnext⟩
  rw [hprobe] at hq
  exact ⟨rfl, by decide, hends, hq⟩

end Registry

end FlatApi.Symbol
